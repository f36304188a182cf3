import Mathlib.Data.List.DropRight
import Dataflow.Proofs.Tokens

/-!
# Printed documents read back

The compact text of a document reads back to the document, if it nests no deeper than the reader allows
and if the text of every number in it, taken alone, reads back to the number (`Number.ReadsBack`). By
induction on the document, with whatever may follow it: a value ends at its closing bracket, its closing
quote or its last letter, and a number in front of what ends an element.
-/

namespace Dataflow.Json

/-! ## What a document holds -/

mutual

/-- The numbers of a document. -/
def Document.numbers : Document → List Number
  | .number n => [n]
  | .list items => itemNumbers items
  | .object entries => entryNumbers entries
  | .null | .bool _ | .text _ => []

/-- The numbers of a list of documents. -/
def itemNumbers : List Document → List Number
  | [] => []
  | d :: ds => d.numbers ++ itemNumbers ds

/-- The numbers of a list of entries. -/
def entryNumbers : List (String × Document) → List Number
  | [] => []
  | (_, d) :: rest => d.numbers ++ entryNumbers rest

end

mutual

/-- How deep arrays and objects nest. -/
def Document.nesting : Document → Nat
  | .list items => itemNesting items + 1
  | .object entries => entryNesting entries + 1
  | .null | .bool _ | .number _ | .text _ => 0

/-- How deep the elements of an array nest. -/
def itemNesting : List Document → Nat
  | [] => 0
  | d :: ds => max d.nesting (itemNesting ds)

/-- How deep the entries of an object nest. -/
def entryNesting : List (String × Document) → Nat
  | [] => 0
  | (_, d) :: rest => max d.nesting (entryNesting rest)

end

/-- The number's text, alone, reads back to the number. -/
def Number.ReadsBack (n : Number) : Prop := Document.read (Document.number n).print = .ok (.number n)

namespace Reader

variable {α β σ : Type}

/-- What begins like a number is read as one. -/
theorem scalar_number {c : Char} (hc : (c = '-' || c.isDigit) = true) :
    scalar c = (do return .number (← number)) := by
  unfold scalar
  split
  · cases hc
  · cases hc
  · cases hc
  · cases hc
  · rw [if_pos hc]

/-- What a scalar can be: a word, a text or a number. -/
theorem of_scalar {c : Char} {cs cs' : List Char} {d : Document} (h : scalar c cs = .ok (d, cs')) :
    (d = .null ∨ ∃ b, d = .bool b) ∨ (c = '"' ∧ ∃ s, d = .text s ∧ text cs = .ok (s, cs')) ∨
      (c = '-' || c.isDigit) = true ∧ ∃ n, d = .number n ∧ number cs = .ok (n, cs') := by
  unfold scalar at h
  split at h
  · obtain ⟨_, _, _, h⟩ := of_bind h
    cases h
    exact .inl (.inl rfl)
  · obtain ⟨_, _, _, h⟩ := of_bind h
    cases h
    exact .inl (.inr ⟨true, rfl⟩)
  · obtain ⟨_, _, _, h⟩ := of_bind h
    cases h
    exact .inl (.inr ⟨false, rfl⟩)
  · obtain ⟨s, _, htext, h⟩ := of_bind h
    cases h
    exact .inr (.inl ⟨rfl, s, rfl, htext⟩)
  · split at h
    · rename_i hc
      obtain ⟨n, _, hnumber, h⟩ := of_bind h
      cases h
      exact .inr (.inr ⟨hc, n, rfl, hnumber⟩)
    · cases h

/-! ## The readers of values -/

/-- The reader of an array's elements. -/
def itemReader (n depth : Nat) (seen : List Document) : Reader (List Document) := do
  return (← value n depth) :: seen

/-- The reader of an object's entries, given the name. -/
def entryReader (n depth : Nat) (seen : List (String × Document)) (name : String) :
    Reader (List (String × Document)) := do
  colon
  return (name, ← value n depth) :: seen

/-- A list is read by its items. -/
theorem value_array {n depth : Nat} {cs tail : List Char} (h : cs.dropWhile isBlank = '[' :: tail) :
    value (n + 1) (depth + 1) cs = (do
      let seen ← items (itemReader n depth) n true []
      close ']'
      return .list seen.reverse : Reader Document) tail :=
  bind_eq (token_eq h)

/-- An object is read by its entries. -/
theorem value_object {n depth : Nat} {cs tail : List Char} (h : cs.dropWhile isBlank = '{' :: tail) :
    value (n + 1) (depth + 1) cs = (do
      let seen ← entries (entryReader n depth) n true []
      close '}'
      return .object seen.reverse : Reader Document) tail :=
  bind_eq (token_eq h)

/-- Anything else is a scalar. -/
theorem value_scalar {n depth : Nat} {c : Char} {cs tail : List Char}
    (h : cs.dropWhile isBlank = c :: tail) (hc : (c = '[' || c = '{') = false) :
    value (n + 1) depth cs = scalar c (c :: tail) := by
  refine (bind_eq (token_eq h)).trans ?_
  simp only [hc, Bool.false_eq_true, if_false]

/-- At the limit of nesting no list and no object is read. -/
theorem value_nested {n : Nat} {c : Char} {cs tail : List Char} (h : cs.dropWhile isBlank = c :: tail)
    (hc : (c = '[' || c = '{') = true) : value (n + 1) 0 cs = .error .malformed := by
  refine (bind_eq (token_eq h)).trans ?_
  simp only [hc, if_true]
  rfl

/-- What a value can be: an array or an object, one level down, or a scalar. -/
theorem of_value {n depth : Nat} {cs cs' : List Char} {d : Document}
    (h : value (n + 1) depth cs = .ok (d, cs')) :
    ∃ c tail, cs.dropWhile isBlank = c :: tail ∧
      ((c = '[' ∧ ∃ depth' seen cs₁, depth = depth' + 1 ∧ d = .list seen.reverse ∧
          items (itemReader n depth') n true [] tail = .ok (seen, cs₁)) ∨
        (c = '{' ∧ ∃ depth' seen cs₁, depth = depth' + 1 ∧ d = .object seen.reverse ∧
          entries (entryReader n depth') n true [] tail = .ok (seen, cs₁)) ∨
        scalar c (c :: tail) = .ok (d, cs')) := by
  obtain ⟨c, cs₁, htoken, hrest⟩ := of_bind h
  obtain ⟨rfl, tail, hdrop⟩ := of_token htoken
  refine ⟨c, tail, hdrop, ?_⟩
  cases hbracket : (c = '[' || c = '{' : Bool) with
  | false =>
    rw [value_scalar hdrop hbracket] at h
    exact .inr (.inr h)
  | true =>
    have hdepth : ∃ depth', depth = depth' + 1 := by
      cases depth with
      | zero => rw [value_nested hdrop hbracket] at h; cases h
      | succ depth => exact ⟨depth, rfl⟩
    obtain ⟨depth, rfl⟩ := hdepth
    simp only [Bool.or_eq_true, decide_eq_true_eq] at hbracket
    rcases hbracket with rfl | rfl
    · rw [value_array hdrop] at h
      obtain ⟨seen, cs₂, hitems, h⟩ := of_bind h
      obtain ⟨_, cs₃, _, h⟩ := of_bind h
      cases h
      exact .inl ⟨rfl, depth, seen, cs₂, rfl, rfl, hitems⟩
    · rw [value_object hdrop] at h
      obtain ⟨seen, cs₂, hentries, h⟩ := of_bind h
      obtain ⟨_, cs₃, _, h⟩ := of_bind h
      cases h
      exact .inr (.inl ⟨rfl, depth, seen, cs₂, rfl, rfl, hentries⟩)

/-- A number that was read began like one. -/
theorem of_value_number {n depth : Nat} {cs cs' : List Char} {x : Number}
    (h : value n depth cs = .ok (.number x, cs')) :
    ∃ c tail, cs.dropWhile isBlank = c :: tail ∧ (c = '-' || c.isDigit) = true ∧
      number (c :: tail) = .ok (x, cs') := by
  cases n with
  | zero => cases h
  | succ n =>
    obtain ⟨c, tail, hdrop, ⟨_, _, _, _, _, hlist, _⟩ | ⟨_, _, _, _, _, hobject, _⟩ | hscalar⟩ := of_value h
    · cases hlist
    · cases hobject
    obtain (hword | ⟨_, hword⟩) | ⟨-, _, htext, -⟩ | ⟨hc, _, ⟨⟩, hnumber⟩ := of_scalar hscalar
    · cases hword
    · cases hword
    · cases htext
    · exact ⟨c, tail, hdrop, hc, hnumber⟩

/-! ## Printed documents -/

/-- A text was read if a reader took all of it but for blanks. -/
theorem of_run {r : Reader α} {s : String} {a : α} (h : r.run s = .ok a) :
    ∃ cs', r s.toList = .ok (a, cs') ∧ cs'.dropWhile isBlank = [] := by
  have h : (r s.toList >>= fun p =>
    if (p.2.dropWhile isBlank).isEmpty then return p.1 else throw .malformed) = .ok a := h
  cases hr : r s.toList with
  | error e => rw [hr] at h; cases h
  | ok p =>
    rw [hr] at h
    have h : (if (p.2.dropWhile isBlank).isEmpty then Except.ok p.1
      else Except.error .malformed : Except ReadError α) = .ok a := h
    split at h
    · rename_i hempty
      cases h
      exact ⟨p.2, rfl, List.isEmpty_iff.1 hempty⟩
    · cases h

/-- A reader that takes all of a text but for blanks has read it. -/
theorem run_eq {r : Reader α} {s : String} {a : α} {cs' : List Char} (h : r s.toList = .ok (a, cs'))
    (hblank : cs'.dropWhile isBlank = []) : r.run s = .ok a := by
  show (r s.toList >>= fun p =>
    if (p.2.dropWhile isBlank).isEmpty then return p.1 else throw .malformed) = .ok a
  rw [h]
  show (if (cs'.dropWhile isBlank).isEmpty then _ else Except.error ReadError.malformed) = .ok a
  rw [hblank]
  rfl

/-- A document is a value, read with enough fuel for the length of its text. -/
theorem of_document {nested : Nat} {cs cs' : List Char} {d : Document}
    (h : document nested cs = .ok (d, cs')) :
    value (cs.length + 1) (nestingLimit - nested) cs = .ok (d, cs') := h

theorem dropWhile_append {c : Char} {cs tail : List Char} (h : cs.dropWhile isBlank = c :: tail)
    (rest : List Char) : (cs ++ rest).dropWhile isBlank = c :: (tail ++ rest) := by
  rw [List.dropWhile_append, h]
  rfl

/-- A number that reads back is read from what it is printed as. -/
theorem chars_number {x : Number} (hx : x.ReadsBack) :
    ∃ c tail, (Document.number x).chars.dropWhile isBlank = c :: tail ∧ (c = '-' || c.isDigit) = true ∧
      ∃ cs', number (c :: tail) = .ok (x, cs') ∧ cs'.dropWhile isBlank = [] := by
  obtain ⟨cs', hread, hblank⟩ := of_run hx
  obtain ⟨c, tail, hdrop, hc, hnumber⟩ := of_value_number (of_document hread)
  unfold Document.print at hdrop
  rw [String.toList_ofList] at hdrop
  exact ⟨c, tail, hdrop, hc, cs', hnumber, hblank⟩

/-- No number begins with a bracket. -/
theorem not_bracket {c : Char} (hc : (c = '-' || c.isDigit) = true) :
    (c = '[' || c = '{') = false := by
  cases hbracket : (c = '[' || c = '{' : Bool) with
  | false => rfl
  | true =>
    simp only [Bool.or_eq_true, decide_eq_true_eq] at hbracket
    rcases hbracket with rfl | rfl <;> cases hc

/-- A number that reads back alone reads back in front of what ends an element. -/
theorem value_number {x : Number} (hx : x.ReadsBack) {n depth : Nat} {cs rest : List Char}
    (hrest : Delimited rest)
    (h : cs.dropWhile isBlank = ((Document.number x).chars ++ rest).dropWhile isBlank) :
    ReadsTo (value (n + 1) depth) cs (.number x) rest := by
  obtain ⟨c, tail, hdrop, hc, cs', hnumber, hblank⟩ := chars_number hx
  rw [dropWhile_append hdrop] at h
  refine ⟨cs' ++ rest, ?_, ?_⟩
  · rw [value_scalar h (not_bracket hc), scalar_number hc]
    exact bind_eq (LocalAt.number (c :: tail) x cs' rest hrest hnumber)
  · rw [List.dropWhile_append, hblank]
    exact hrest.dropWhile

/-- The first character of a document. -/
theorem chars_first (d : Document) (hd : ∀ x ∈ d.numbers, x.ReadsBack) :
    ∃ c tail, d.chars.dropWhile isBlank = c :: tail ∧ c ≠ ']' := by
  cases d with
  | null => exact ⟨_, _, rfl, by decide⟩
  | bool b => cases b <;> exact ⟨_, _, rfl, by decide⟩
  | number x =>
    obtain ⟨c, tail, hdrop, hc, -⟩ := chars_number (hd x (List.mem_singleton.2 rfl))
    exact ⟨c, tail, hdrop, fun h => by subst h; cases hc⟩
  | text s => exact ⟨_, _, rfl, by decide⟩
  | list ds => exact ⟨_, _, rfl, by decide⟩
  | object es => exact ⟨_, _, rfl, by decide⟩

/-- A number among the items of a list is delimited. -/
theorem delimited_itemChars (ds : List Document) (rest : List Char) :
    Delimited (itemChars false ds ++ ']' :: rest) := by
  cases ds with
  | nil => rintro c ⟨⟩; exact .inr (.inl rfl)
  | cons d ds => rintro c ⟨⟩; exact .inl rfl

/-- A number among the entries of an object is delimited. -/
theorem delimited_entryChars (es : List (String × Document)) (rest : List Char) :
    Delimited (entryChars false es ++ '}' :: rest) := by
  cases es with
  | nil => rintro c ⟨⟩; exact .inr (.inr rfl)
  | cons e es => rintro c ⟨⟩; exact .inl rfl

theorem dropWhile_first {c : Char} {cs tail : List Char} (h : cs.dropWhile isBlank = c :: tail) :
    (c :: tail).dropWhile isBlank = c :: tail := by
  rw [← h, List.dropWhile_idempotent]

/-- Every document is printed as something. -/
theorem chars_pos (d : Document) (hd : ∀ x ∈ d.numbers, x.ReadsBack) : 0 < d.chars.length := by
  obtain ⟨c, tail, hdrop, -⟩ := chars_first d hd
  cases hchars : d.chars with
  | nil => rw [hchars] at hdrop; cases hdrop
  | cons => exact Nat.zero_lt_succ _

/-- A list has no more items than characters. -/
theorem length_le_itemChars (ds : List Document) (isFirst : Bool)
    (hnumbers : ∀ x ∈ itemNumbers ds, x.ReadsBack) : ds.length ≤ (itemChars isFirst ds).length := by
  induction ds generalizing isFirst with
  | nil => exact Nat.zero_le _
  | cons d ds ih =>
    simp only [itemNumbers, List.mem_append] at hnumbers
    have hpos := chars_pos d fun x hx => hnumbers x (.inl hx)
    have := ih false fun x hx => hnumbers x (.inr hx)
    simp only [itemChars, List.length_append, List.length_cons]
    omega

/-- An object has no more entries than characters. -/
theorem length_le_entryChars (es : List (String × Document)) (isFirst : Bool) :
    es.length ≤ (entryChars isFirst es).length := by
  induction es generalizing isFirst with
  | nil => exact Nat.zero_le _
  | cons e es ih =>
    have := ih false
    simp only [entryChars, List.length_append, List.length_cons]
    omega

-- by induction on the document; the bounds of the loops are the characters left, and each element or
-- entry has one at least
mutual

/-- A printed document reads back, whatever ends it. -/
theorem value_chars (d : Document) {n depth : Nat} {cs rest : List Char}
    (hnumbers : ∀ x ∈ d.numbers, x.ReadsBack) (hn : d.chars.length < n) (hdepth : d.nesting ≤ depth)
    (hrest : Delimited rest) (h : cs.dropWhile isBlank = (d.chars ++ rest).dropWhile isBlank) :
    ReadsTo (value n depth) cs d rest := by
  obtain ⟨n, rfl⟩ := Nat.exists_eq_succ_of_ne_zero (Nat.ne_zero_of_lt hn)
  cases d with
  | null =>
    have h : cs.dropWhile isBlank = 'n' :: 'u' :: 'l' :: 'l' :: rest := h
    exact ⟨rest, value_scalar h rfl, hrest.dropWhile⟩
  | bool b =>
    cases b with
    | true =>
      have h : cs.dropWhile isBlank = 't' :: 'r' :: 'u' :: 'e' :: rest := h
      exact ⟨rest, value_scalar h rfl, hrest.dropWhile⟩
    | false =>
      have h : cs.dropWhile isBlank = 'f' :: 'a' :: 'l' :: 's' :: 'e' :: rest := h
      exact ⟨rest, value_scalar h rfl, hrest.dropWhile⟩
  | number x => exact value_number (hnumbers x (List.mem_singleton.2 rfl)) hrest h
  | text s =>
    have h : cs.dropWhile isBlank = printText s ++ rest := h
    exact ⟨rest, (value_scalar h rfl).trans (bind_eq (text_print s rest)), hrest.dropWhile⟩
  | list ds =>
    simp only [Document.numbers] at hnumbers
    simp only [Document.nesting] at hdepth
    obtain ⟨depth, rfl⟩ := Nat.exists_eq_succ_of_ne_zero (by omega : depth ≠ 0)
    simp only [Document.chars, List.length_append, List.length_cons, List.length_nil] at hn
    have h : cs.dropWhile isBlank = '[' :: (itemChars true ds ++ ']' :: rest) := by
      rw [h, Document.chars, List.cons_append, List.cons_append, List.append_assoc]
      rfl
    have hlength := length_le_itemChars ds true hnumbers
    refine ⟨rest, ?_, hrest.dropWhile⟩
    have hitems : items (itemReader n depth) n true [] (itemChars true ds ++ ']' :: rest) =
        .ok (ds.reverse ++ [], ']' :: rest) :=
      items_chars ds hnumbers (by omega) (by omega) (by omega) rfl
    rw [value_array h, bind_eq hitems, bind_eq (close_eq rfl)]
    show Except.ok (Document.list (ds.reverse ++ []).reverse, rest) = _
    rw [List.append_nil, List.reverse_reverse]
  | object es =>
    simp only [Document.numbers] at hnumbers
    simp only [Document.nesting] at hdepth
    obtain ⟨depth, rfl⟩ := Nat.exists_eq_succ_of_ne_zero (by omega : depth ≠ 0)
    simp only [Document.chars, List.length_append, List.length_cons, List.length_nil] at hn
    have h : cs.dropWhile isBlank = '{' :: (entryChars true es ++ '}' :: rest) := by
      rw [h, Document.chars, List.cons_append, List.cons_append, List.append_assoc]
      rfl
    have hlength := length_le_entryChars es true
    refine ⟨rest, ?_, hrest.dropWhile⟩
    have hfirst : (entryChars true es ++ '}' :: rest).dropWhile isBlank =
        entryChars true es ++ '}' :: rest := by
      cases es <;> rfl
    have hentries : entries (entryReader n depth) n true [] (entryChars true es ++ '}' :: rest) =
        .ok (es.reverse ++ [], '}' :: rest) :=
      entries_chars es hnumbers (by omega) (by omega) (by omega) hfirst
    rw [value_object h, bind_eq hentries, bind_eq (close_eq rfl)]
    show Except.ok (Document.object (es.reverse ++ []).reverse, rest) = _
    rw [List.append_nil, List.reverse_reverse]

/-- The items of a list are read back, one by one. -/
theorem items_chars (ds : List Document) {n depth k : Nat} {isFirst : Bool} {seen : List Document}
    {cs rest : List Char} (hnumbers : ∀ x ∈ itemNumbers ds, x.ReadsBack)
    (hn : (itemChars isFirst ds).length < n) (hk : ds.length < k) (hdepth : itemNesting ds ≤ depth)
    (h : cs.dropWhile isBlank = (itemChars isFirst ds ++ ']' :: rest).dropWhile isBlank) :
    items (itemReader n depth) k isFirst seen cs = .ok (ds.reverse ++ seen, ']' :: rest) := by
  obtain ⟨k, rfl⟩ := Nat.exists_eq_succ_of_ne_zero (Nat.ne_zero_of_lt hk)
  cases ds with
  | nil => exact items_nil _ k isFirst seen h
  | cons d ds =>
    simp only [itemNumbers, List.mem_append, itemNesting, itemChars, List.length_append,
      List.length_cons, List.append_assoc] at hnumbers hdepth hn hk h
    -- looking for the closing bracket drops what blanks a number's text may begin with
    obtain ⟨c, tail, hdrop, hc⟩ := chars_first d fun x hx => hnumbers x (.inl hx)
    have hfirst := dropWhile_append hdrop (itemChars false ds ++ ']' :: rest)
    obtain ⟨cs', hvalue, hleft⟩ : ReadsTo (value n depth)
        (c :: (tail ++ (itemChars false ds ++ ']' :: rest))) d (itemChars false ds ++ ']' :: rest) :=
      value_chars d (fun x hx => hnumbers x (.inl hx)) (by omega) (by omega)
        (delimited_itemChars ds rest) ((dropWhile_first hfirst).trans hfirst.symm)
    have hitem : itemReader n depth seen (c :: (tail ++ (itemChars false ds ++ ']' :: rest))) =
        .ok (d :: seen, cs') := bind_eq hvalue
    rw [items_cons _ k isFirst seen h hfirst hc, bind_eq hitem,
      items_chars ds (fun x hx => hnumbers x (.inr hx)) (by omega) (by omega) (by omega)
        (hleft.trans (delimited_itemChars ds rest).dropWhile.symm),
      List.reverse_cons, List.append_assoc]
    rfl

/-- The entries of an object are read back, one by one. -/
theorem entries_chars (es : List (String × Document)) {n depth k : Nat} {isFirst : Bool}
    {seen : List (String × Document)} {cs rest : List Char}
    (hnumbers : ∀ x ∈ entryNumbers es, x.ReadsBack) (hn : (entryChars isFirst es).length < n)
    (hk : es.length < k) (hdepth : entryNesting es ≤ depth)
    (h : cs.dropWhile isBlank = entryChars isFirst es ++ '}' :: rest) :
    entries (entryReader n depth) k isFirst seen cs = .ok (es.reverse ++ seen, '}' :: rest) := by
  obtain ⟨k, rfl⟩ := Nat.exists_eq_succ_of_ne_zero (Nat.ne_zero_of_lt hk)
  cases es with
  | nil => exact entries_nil _ k isFirst seen h
  | cons e es =>
    obtain ⟨name, d⟩ := e
    simp only [entryNumbers, List.mem_append, entryNesting, entryChars, List.length_append,
      List.length_cons] at hnumbers hdepth hn hk
    have h : cs.dropWhile isBlank = (if isFirst then [] else [',']) ++ printText name ++
        ':' :: (d.chars ++ (entryChars false es ++ '}' :: rest)) := by
      rw [h]
      simp [entryChars]
    obtain ⟨cs', hvalue, hleft⟩ : ReadsTo (value n depth)
        (d.chars ++ (entryChars false es ++ '}' :: rest)) d (entryChars false es ++ '}' :: rest) :=
      value_chars d (fun x hx => hnumbers x (.inl hx)) (by omega) (by omega)
        (delimited_entryChars es rest) rfl
    have hentry : entryReader n depth seen name
        (':' :: (d.chars ++ (entryChars false es ++ '}' :: rest))) = .ok ((name, d) :: seen, cs') :=
      (bind_eq (colon_eq rfl)).trans (bind_eq hvalue)
    rw [entries_cons _ k isFirst seen name h, bind_eq hentry,
      entries_chars es (fun x hx => hnumbers x (.inr hx)) (by omega) (by omega) (by omega) hleft,
      List.reverse_cons, List.append_assoc]
    rfl

end

end Reader

/-- A printed document reads back. -/
theorem Document.read_print {d : Document} (hnumbers : ∀ x ∈ d.numbers, x.ReadsBack)
    (hnesting : d.nesting ≤ Reader.nestingLimit) : Document.read d.print = .ok d := by
  obtain ⟨cs', hread, hblank⟩ : Reader.ReadsTo (Reader.value (d.chars.length + 1) Reader.nestingLimit)
      d.chars d [] :=
    Reader.value_chars d hnumbers (Nat.lt_succ_self _) hnesting (fun _ h => nomatch h)
      (by rw [List.append_nil])
  have hdocument : Reader.document 0 d.print.toList = .ok (d, cs') := by
    unfold Document.print
    rw [String.toList_ofList]
    exact hread
  exact Reader.run_eq hdocument hblank

end Dataflow.Json
