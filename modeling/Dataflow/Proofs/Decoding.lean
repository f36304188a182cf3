import Dataflow.Proofs.Bounds
import Dataflow.Proofs.RoundTrips

/-!
# Nodes are read off their documents

A node is read from a text in one pass: the kind is judged where it stands, and each property is read whole.
What comes of it is what the document of the text denotes, had it been read whole (`SpecNode.ofJson_eq_ok_iff`).
The entries are read alike, one by one (`SpecNode.entries_readEntry_iff`), and judging them on the way lets
exactly those pass that have one kind among them (`SpecNode.foldlM_accept_none`).
-/

namespace Dataflow

open Json

namespace Json.Reader

variable {α β : Type}

/-- Two readers in a row read what the first reads and then the second. -/
theorem bind_eq_ok_iff {r : Reader α} {f : α → Reader β} {b : β} {cs cs'' : List Char} :
    (r >>= f) cs = .ok (b, cs'') ↔ ∃ a cs', r cs = .ok (a, cs') ∧ f a cs' = .ok (b, cs'') :=
  ⟨of_bind, fun ⟨_, _, ha, hb⟩ => (bind_eq ha).trans hb⟩

/-- A text is read if nothing but blanks is left of it. -/
theorem run_eq_ok_iff {r : Reader α} {s : String} {a : α} :
    r.run s = .ok a ↔ ∃ cs', r s.toList = .ok (a, cs') ∧ cs'.dropWhile isBlank = [] :=
  ⟨of_run, fun ⟨_, ha, hblank⟩ => run_eq ha hblank⟩

/-- A wrong type is never read. -/
theorem not_wrongType {a : α} {cs cs' : List Char} : wrongType cs ≠ .ok (a, cs') :=
  Yields.wrongType (fun _ => False) cs a cs'

/-- A value that is a text begins with its quotation mark. -/
theorem value_text_iff {n depth : Nat} {cs cs' : List Char} {text : String} :
    value (n + 1) depth cs = .ok (.text text, cs') ↔
      ∃ tail, cs.dropWhile isBlank = '"' :: tail ∧ Reader.text ('"' :: tail) = .ok (text, cs') := by
  constructor
  · intro h
    obtain ⟨c, tail, hdrop, ⟨_, _, _, _, _, hlist, _⟩ | ⟨_, _, _, _, _, hobject, _⟩ | hscalar⟩ := of_value h
    · cases hlist
    · cases hobject
    obtain (hword | ⟨_, hword⟩) | ⟨rfl, _, ⟨⟩, htext⟩ | ⟨-, _, hnumber, -⟩ := of_scalar hscalar
    · cases hword
    · cases hword
    · exact ⟨tail, hdrop, htext⟩
    · cases hnumber
  · rintro ⟨tail, hdrop, htext⟩
    rw [value_scalar hdrop rfl]
    exact bind_eq htext

/-- An object begins with its brace. -/
theorem brace_of_value {n depth : Nat} {cs cs' : List Char} {entries : List (String × Document)}
    (h : value (n + 1) depth cs = .ok (.object entries, cs')) :
    ∃ tail, cs.dropWhile isBlank = '{' :: tail := by
  obtain ⟨c, tail, hdrop, ⟨_, _, _, _, _, hlist, _⟩ | ⟨rfl, -⟩ | hscalar⟩ := of_value h
  · cases hlist
  · exact ⟨tail, hdrop⟩
  obtain (hword | ⟨_, hword⟩) | ⟨_, _, htext, _⟩ | ⟨_, _, hnumber, _⟩ := of_scalar hscalar
  · cases hword
  · cases hword
  · cases htext
  · cases hnumber

/-- Either no entry is left, or one is read and then the others. -/
theorem entries_succ_eq_ok_iff {σ : Type} {entry : σ → String → Reader σ} {n : Nat} {isFirst : Bool}
    {s s' : σ} {cs cs' : List Char} :
    entries entry (n + 1) isFirst s cs = .ok (s', cs') ↔
      ∃ another cs₁, anotherEntry isFirst cs = .ok (another, cs₁) ∧
        (another = false ∧ s = s' ∧ cs₁ = cs' ∨ another = true ∧ ∃ name cs₂ s₁ cs₃,
          text cs₁ = .ok (name, cs₂) ∧ entry s name cs₂ = .ok (s₁, cs₃) ∧
            entries entry n false s₁ cs₃ = .ok (s', cs')) := by
  refine Iff.trans bind_eq_ok_iff (exists_congr fun another => exists_congr fun cs₁ =>
    and_congr_right fun _ => ?_)
  cases another with
  | false =>
    constructor
    · intro h
      cases h
      exact .inl ⟨rfl, rfl, rfl⟩
    · rintro (⟨-, rfl, rfl⟩ | ⟨⟨⟩, -⟩)
      rfl
  | true =>
    constructor
    · intro h
      obtain ⟨name, cs₂, hname, h⟩ := of_bind h
      obtain ⟨s₁, cs₃, hentry, h⟩ := of_bind h
      exact .inr ⟨rfl, name, cs₂, s₁, cs₃, hname, hentry, h⟩
    · rintro (⟨⟨⟩, -⟩ | ⟨-, name, cs₂, s₁, cs₃, hname, hentry, h⟩)
      exact (bind_eq hname).trans ((bind_eq hentry).trans h)

/-- Entries are read in front of those that were read before. -/
theorem exists_append_of_entries {n depth k : Nat} {isFirst : Bool} {acc read : List (String × Document)}
    {cs cs' : List Char} (h : entries (entryReader n depth) k isFirst acc cs = .ok (read, cs')) :
    ∃ es : List (String × Document), read = es.reverse ++ acc := by
  have hstep (seen : List (String × Document)) (name : String)
      (hseen : ∃ es : List (String × Document), seen = es.reverse ++ acc) :
      Yields (entryReader n depth seen name) fun seen =>
        ∃ es : List (String × Document), seen = es.reverse ++ acc := by
    obtain ⟨es, rfl⟩ := hseen
    refine .after fun _ => .after fun d => .pure ⟨es ++ [(name, d)], ?_⟩
    rw [List.reverse_append]
    rfl
  exact Yields.entries hstep k isFirst acc ⟨[], rfl⟩ _ _ _ h

/-- An object is read entry by entry, up to its closing brace. -/
theorem document_object_eq_ok_iff {cs cs' tail : List Char} {d : Document}
    (hdrop : cs.dropWhile isBlank = '{' :: tail) :
    document 0 cs = .ok (d, cs') ↔ ∃ (es : List (String × Document)) (cs₁ : List Char),
      entries (entryReader cs.length (nestingLimit - 1)) (tail.length + 1) true [] tail =
        .ok (es.reverse, cs₁) ∧ close '}' cs₁ = .ok ((), cs') ∧ d = .object es := by
  have hbound : entries (entryReader cs.length (nestingLimit - 1)) cs.length true [] tail =
      entries (entryReader cs.length (nestingLimit - 1)) (tail.length + 1) true [] tail :=
    entries_bound (Takes.entryReader (.value _ _)) (fun _ _ _ _ => rfl) true [] (Nat.le_refl _)
      (length_lt_of_dropWhile hdrop) (Nat.lt_succ_self _)
  have hdepth : nestingLimit - 0 = nestingLimit - 1 + 1 := rfl
  rw [document_eq 0 (Nat.lt_succ_self _), hdepth, value_object hdrop, bind_eq_ok_iff, hbound]
  constructor
  · rintro ⟨seen, cs₁, hentries, h⟩
    obtain ⟨⟨⟩, cs₂, hclose, h⟩ := of_bind h
    cases h
    exact ⟨seen.reverse, cs₁, seen.reverse_reverse.symm ▸ hentries, hclose, rfl⟩
  · rintro ⟨es, cs₁, hentries, hclose, rfl⟩
    refine ⟨es.reverse, cs₁, hentries, (bind_eq hclose).trans ?_⟩
    rw [List.reverse_reverse]
    rfl

end Json.Reader

namespace SpecNode

/-! ## Entries as they are read -/

/-- What is known so far of an object, after one more of its entries: its kind and its other entries, the
last one first. A second kind is refused, and so is one that is not a text. -/
def accept (seen : Option String × List (String × Document)) (e : String × Document) :
    Option (Option String × List (String × Document)) :=
  if isKindName e.1 then
    match seen.1, e.2 with
    | none, .text kind => some (some kind, seen.2)
    | _, _ => none
  else some (seen.1, e :: seen.2)

variable {seen seen' : Option String × List (String × Document)} {e : String × Document} {name : String}
  {cs cs' : List Char}

/-- A kind is accepted if it is the first one and a text. -/
theorem accept_kind_iff (hname : isKindName e.1 = true) :
    accept seen e = some seen' ↔ seen.1 = none ∧ ∃ kind, e.2 = .text kind ∧ seen' = (some kind, seen.2) := by
  unfold accept
  rw [if_pos hname]
  split
  · rename_i kind hseen hkind
    simp [hseen, hkind, eq_comm]
  · rename_i hother
    constructor
    · intro h
      cases h
    · rintro ⟨hseen, kind, hkind, -⟩
      exact absurd hkind (hother kind hseen)

/-- A property is kept, whatever its value. -/
theorem accept_property (hname : isKindName e.1 = false) :
    accept seen e = some (seen.1, e :: seen.2) := by
  unfold accept
  rw [hname, if_neg Bool.false_ne_true]

/-- A kind is read where a text is. -/
theorem readText_iff {n depth : Nat} {kind : String} :
    readText cs = .ok (kind, cs') ↔ Reader.value (n + 1) depth cs = .ok (.text kind, cs') := by
  rw [Reader.value_text_iff]
  constructor
  · intro h
    obtain ⟨c, cs₁, htoken, h⟩ := Reader.of_bind h
    obtain ⟨rfl, tail, hdrop⟩ := Reader.of_token htoken
    -- Whatever else begins here is no text, and is refused without being read.
    split at h
    · rename_i hc
      subst hc
      exact ⟨tail, hdrop, hdrop ▸ h⟩
    · exact absurd h Reader.not_wrongType
  · rintro ⟨tail, hdrop, htext⟩
    exact (Reader.bind_eq (Reader.token_eq hdrop)).trans htext

/-- An entry is read as a value, and accepted. -/
theorem readEntry_iff {n : Nat} (hn : cs.length < n) :
    readEntry seen name cs = .ok (seen', cs') ↔ ∃ d cs₁, Reader.colon cs = .ok ((), cs₁) ∧
      Reader.value n (Reader.nestingLimit - 1) cs₁ = .ok (d, cs') ∧ accept seen (name, d) = some seen' := by
  unfold readEntry
  cases hname : isKindName name with
  | true =>
    obtain ⟨n, rfl⟩ := Nat.exists_eq_succ_of_ne_zero (Nat.ne_zero_of_lt hn)
    simp only [accept_kind_iff (e := (name, _)) hname]
    obtain ⟨kind?, entries⟩ := seen
    constructor
    · intro h
      cases kind? with
      | some kind => cases h
      | none =>
        obtain ⟨⟨⟩, cs₁, hcolon, h⟩ := Reader.of_bind h
        obtain ⟨kind, cs₂, htext, h⟩ := Reader.of_bind h
        cases h
        exact ⟨.text kind, cs₁, hcolon, readText_iff.1 htext, rfl, kind, rfl, rfl⟩
    · rintro ⟨_, cs₁, hcolon, hvalue, rfl, kind, rfl, rfl⟩
      exact (Reader.bind_eq hcolon).trans (Reader.bind_eq (readText_iff.2 hvalue))
  | false =>
    simp only [accept_property (e := (name, _)) hname]
    have hdocument {cs₁ : List Char} (hcolon : Reader.colon cs = .ok ((), cs₁)) :
        Reader.document 1 cs₁ = Reader.value n (Reader.nestingLimit - 1) cs₁ :=
      Reader.document_eq 1 (Nat.lt_of_le_of_lt (Reader.Takes.colon _ _ _ hcolon) hn)
    constructor
    · intro h
      obtain ⟨⟨⟩, cs₁, hcolon, h⟩ := Reader.of_bind h
      obtain ⟨d, cs₂, hd, h⟩ := Reader.of_bind h
      cases h
      exact ⟨d, cs₁, hcolon, hdocument hcolon ▸ hd, rfl⟩
    · rintro ⟨d, cs₁, hcolon, hvalue, ⟨⟩⟩
      exact (Reader.bind_eq hcolon).trans (Reader.bind_eq ((hdocument hcolon).trans hvalue))

/-- The entries of the outermost object are read as those of any object, and accepted one by one. -/
theorem entries_readEntry_iff {m k : Nat} (isFirst : Bool) (acc : List (String × Document))
    (hm : cs.length < m) :
    Reader.entries readEntry k isFirst seen cs = .ok (seen', cs') ↔
      ∃ es : List (String × Document),
        Reader.entries (Reader.entryReader m (Reader.nestingLimit - 1)) k isFirst acc cs =
          .ok (es.reverse ++ acc, cs') ∧ es.foldlM accept seen = some seen' := by
  induction k generalizing isFirst seen acc cs with
  | zero =>
    constructor
    · intro h
      cases h
    · rintro ⟨_, h, -⟩
      cases h
  | succ k ih =>
    -- Behind the name there is less left than the bound.
    have hlt {another : Bool} {cs₁ cs₂ : List Char} {name : String}
        (hanother : Reader.anotherEntry isFirst cs = .ok (another, cs₁))
        (hname : Reader.text cs₁ = .ok (name, cs₂)) : cs₂.length < m := by
      have hle := Reader.Takes.anotherEntry isFirst _ _ _ hanother
      have := Reader.Takes.text _ _ _ hname
      omega
    have hle {cs₂ cs₃ cs₄ : List Char} {d : Document} (hcolon : Reader.colon cs₂ = .ok ((), cs₃))
        (hvalue : Reader.value m (Reader.nestingLimit - 1) cs₃ = .ok (d, cs₄)) : cs₄.length ≤ cs₂.length := by
      have hle := Reader.Takes.colon _ _ _ hcolon
      have := Reader.Takes.value m _ _ _ _ hvalue
      omega
    constructor
    · intro h
      obtain ⟨another, cs₁, hanother, ⟨rfl, rfl, rfl⟩ | ⟨rfl, name, cs₂, seen₁, cs₃, hname, hentry, h⟩⟩ :=
        Reader.entries_succ_eq_ok_iff.1 h
      · exact ⟨[], Reader.entries_succ_eq_ok_iff.2 ⟨false, cs₁, hanother, .inl ⟨rfl, rfl, rfl⟩⟩, rfl⟩
      · have hcs₂ := hlt hanother hname
        obtain ⟨d, cs₄, hcolon, hvalue, haccept⟩ := (readEntry_iff hcs₂).1 hentry
        obtain ⟨es, hes, hfold⟩ := (ih false ((name, d) :: acc)
          (Nat.lt_of_le_of_lt (hle hcolon hvalue) hcs₂)).1 h
        refine ⟨(name, d) :: es, Reader.entries_succ_eq_ok_iff.2 ⟨true, cs₁, hanother, .inr ⟨rfl, name, cs₂,
          (name, d) :: acc, cs₃, hname, ?_, ?_⟩⟩, ?_⟩
        · exact (Reader.bind_eq hcolon).trans (Reader.bind_eq hvalue)
        · rw [List.reverse_cons, List.append_assoc]
          exact hes
        · rw [List.foldlM_cons, haccept]
          exact hfold
    · rintro ⟨es, h, hfold⟩
      obtain ⟨another, cs₁, hanother, ⟨rfl, hacc, rfl⟩ | ⟨rfl, name, cs₂, acc₁, cs₃, hname, hentry, h⟩⟩ :=
        Reader.entries_succ_eq_ok_iff.1 h
      · rw [List.self_eq_append_left, List.reverse_eq_nil_iff] at hacc
        subst hacc
        cases hfold
        exact Reader.entries_succ_eq_ok_iff.2 ⟨false, cs₁, hanother, .inl ⟨rfl, rfl, rfl⟩⟩
      · have hcs₂ := hlt hanother hname
        obtain ⟨⟨⟩, cs₄, hcolon, hentry⟩ := Reader.of_bind hentry
        obtain ⟨d, cs₅, hvalue, hentry⟩ := Reader.of_bind hentry
        cases hentry
        obtain ⟨es', hes'⟩ := Reader.exists_append_of_entries h
        obtain rfl : es = (name, d) :: es' := by
          rw [List.append_cons, List.append_left_inj, ← List.reverse_cons] at hes'
          exact List.reverse_injective hes'
        rw [List.foldlM_cons, Option.bind_eq_bind, Option.bind_eq_some_iff] at hfold
        obtain ⟨seen₁, haccept, hfold⟩ := hfold
        refine Reader.entries_succ_eq_ok_iff.2 ⟨true, cs₁, hanother, .inr ⟨rfl, name, cs₂, seen₁, cs₃, hname,
          (readEntry_iff hcs₂).2 ⟨d, cs₄, hcolon, hvalue, haccept⟩, ?_⟩⟩
        rw [List.reverse_cons, List.append_assoc] at h
        exact (ih false _ (Nat.lt_of_le_of_lt (hle hcolon hvalue) hcs₂)).2 ⟨es', h, hfold⟩

/-! ## Entries as they are judged -/

variable {es acc props : List (String × Document)} {kind : String}

/-- A property says nothing of the kind. -/
theorem kindOfEntries?_property (hname : isKindName e.1 = false) :
    kindOfEntries? (e :: es) = kindOfEntries? es := by
  unfold kindOfEntries?
  rw [List.filter_cons_of_neg (by simp [hname])]

/-- A kind at the front is the only one. -/
theorem kindOfEntries?_kind_iff (hname : isKindName e.1 = true) :
    kindOfEntries? (e :: es) = some kind ↔
      e.2 = .text kind ∧ es.filter (fun e => isKindName e.1) = [] := by
  obtain ⟨name, d⟩ := e
  unfold kindOfEntries?
  rw [List.filter_cons_of_pos (by simpa using hname)]
  constructor
  · intro h
    split at h
    · rename_i hfilter
      cases h
      injection hfilter with hfirst hnone
      cases hfirst
      exact ⟨rfl, hnone⟩
    · cases h
  · rintro ⟨rfl, hnone⟩
    rw [hnone]

/-- Behind a kind there may be no other. -/
theorem foldlM_accept_some : es.foldlM accept (some kind, acc) = some seen' ↔
    es.filter (fun e => isKindName e.1) = [] ∧
      seen' = (some kind, (es.filter fun e => !isKindName e.1).reverse ++ acc) := by
  induction es generalizing acc with
  | nil => simp [eq_comm]
  | cons e es ih =>
    rw [List.foldlM_cons, Option.bind_eq_bind]
    cases hname : isKindName e.1 with
    | true => 
      have hnone : accept (some kind, acc) e = none := Option.eq_none_iff_forall_ne_some.2 fun _ h =>
        nomatch ((accept_kind_iff hname).1 h).1
      simp [hnone, hname]
    | false => simp [accept_property hname, hname, ih]

/-- Those entries are accepted that have one kind among them, and the others of them are kept. -/
theorem foldlM_accept_none : es.foldlM accept (none, acc) = some (some kind, props) ↔
    kindOfEntries? es = some kind ∧ props = (es.filter fun e => !isKindName e.1).reverse ++ acc := by
  induction es generalizing acc with
  | nil => simp [kindOfEntries?]
  | cons e es ih =>
    rw [List.foldlM_cons, Option.bind_eq_bind, Option.bind_eq_some_iff]
    cases hname : isKindName e.1 with
    | true =>
      simp only [accept_kind_iff hname, kindOfEntries?_kind_iff hname]
      constructor
      · rintro ⟨_, ⟨-, kind', hkind, rfl⟩, h⟩
        obtain ⟨hnone, h⟩ := foldlM_accept_some.1 h
        cases h
        exact ⟨⟨hkind, hnone⟩, by simp [hname]⟩
      · rintro ⟨⟨hkind, hnone⟩, rfl⟩
        exact ⟨_, ⟨trivial, kind, hkind, rfl⟩, foldlM_accept_some.2 ⟨hnone, by simp [hname]⟩⟩
    | false =>
      simp [accept_property hname, kindOfEntries?_property hname, hname, ih]

/-- The entries for the kind have no part in the properties. -/
theorem propertiesOfEntries?_filter (ps : List (String × Property)) :
    propertiesOfEntries? ps (es.filter fun e => !isKindName e.1) = propertiesOfEntries? ps es := by
  induction es generalizing ps with
  | nil => rfl
  | cons e es ih =>
    obtain ⟨name, d⟩ := e
    cases hname : isKindName name with
    | true => rw [List.filter_cons_of_neg (by simp [hname]), ih, propertiesOfEntries?, if_pos hname]
    | false =>
      rw [List.filter_cons_of_pos (by simp [hname]), propertiesOfEntries?, propertiesOfEntries?]
      simp only [hname, Bool.false_eq_true, if_false, ih]

/-! ## Nodes -/

/-- A node is read off an object entry by entry, up to the closing brace. -/
theorem reader_object_eq_ok_iff {s : SpecNode} {tail : List Char}
    (hdrop : cs.dropWhile Reader.isBlank = '{' :: tail) :
    reader cs = .ok (s, cs') ↔ ∃ (props : List (String × Document)) (cs₁ : List Char),
      Reader.entries readEntry (tail.length + 1) true (none, []) tail = .ok ((some s.kind, props), cs₁) ∧
        propertiesOfEntries? [] props.reverse = some s.properties ∧
          Reader.close '}' cs₁ = .ok ((), cs') := by
  obtain ⟨kind, ps⟩ := s
  constructor
  · intro h
    obtain ⟨c, cs₁, htoken, h⟩ := Reader.of_bind h
    obtain ⟨rfl, _, hcons⟩ := Reader.of_token htoken
    cases hdrop.symm.trans hcons
    rw [if_pos rfl, hdrop] at h
    obtain ⟨⟨⟩, _, ⟨⟩, h⟩ := Reader.of_bind h
    obtain ⟨_, _, ⟨⟩, h⟩ := Reader.of_bind h
    obtain ⟨⟨kind?, props⟩, cs₁, hentries, h⟩ := Reader.of_bind h
    cases kind? with
    | none => cases h
    | some kind =>
      dsimp only at h
      cases hps : propertiesOfEntries? [] props.reverse with
      | none =>
        rw [hps] at h
        cases h
      | some ps =>
        rw [hps] at h
        obtain ⟨⟨⟩, _, hclose, h⟩ := Reader.of_bind h
        cases h
        exact ⟨props, cs₁, hentries, hps, hclose⟩
  · rintro ⟨props, cs₁, hentries, hps, hclose⟩
    refine (Reader.bind_eq (Reader.token_eq hdrop)).trans ?_
    refine (Reader.bind_eq (r := Reader.skip) rfl).trans ?_
    refine (Reader.bind_eq (r := Reader.bound) rfl).trans ?_
    refine (Reader.bind_eq hentries).trans ?_
    dsimp only
    rw [hps]
    exact Reader.bind_eq hclose

/-- A node is read where its document is. -/
theorem reader_eq_ok_iff {s : SpecNode} :
    reader cs = .ok (s, cs') ↔ ∃ d, Reader.document 0 cs = .ok (d, cs') ∧ ofDocument? d = some s := by
  by_cases hbrace : ∃ tail, cs.dropWhile Reader.isBlank = '{' :: tail
  · obtain ⟨tail, hdrop⟩ := hbrace
    have hlt := Reader.length_lt_of_dropWhile hdrop
    rw [reader_object_eq_ok_iff hdrop]
    simp only [Reader.document_object_eq_ok_iff hdrop]
    constructor
    · rintro ⟨props, cs₁, hentries, hps, hclose⟩
      obtain ⟨es, hes, hfold⟩ := (entries_readEntry_iff true [] hlt).1 hentries
      obtain ⟨hkind, rfl⟩ := foldlM_accept_none.1 hfold
      rw [List.append_nil] at hes hps
      rw [List.reverse_reverse, propertiesOfEntries?_filter] at hps
      exact ⟨.object es, ⟨es, cs₁, hes, hclose, rfl⟩, ofDocument?_object_iff.2 ⟨hkind, hps⟩⟩
    · rintro ⟨_, ⟨es, cs₁, hes, hclose, rfl⟩, hs⟩
      obtain ⟨hkind, hps⟩ := ofDocument?_object_iff.1 hs
      refine ⟨(es.filter fun e => !isKindName e.1).reverse, cs₁, ?_, ?_, hclose⟩
      · exact (entries_readEntry_iff true [] hlt).2 ⟨es, by rwa [List.append_nil],
          foldlM_accept_none.2 ⟨hkind, (List.append_nil _).symm⟩⟩
      · rw [List.reverse_reverse, propertiesOfEntries?_filter]
        exact hps
  · -- Neither reads a node of anything else.
    constructor
    · intro h
      obtain ⟨c, cs₁, htoken, h⟩ := Reader.of_bind h
      obtain ⟨rfl, tail, hdrop⟩ := Reader.of_token htoken
      split at h
      · rename_i hc
        exact absurd ⟨tail, hc ▸ hdrop⟩ hbrace
      · exact absurd h Reader.not_wrongType
    · rintro ⟨d, hd, hs⟩
      cases d with
      | object es => exact absurd (Reader.brace_of_value (Reader.of_document hd)) hbrace
      | _ => cases hs

/-- **A node is read off a text exactly if the document of the text denotes it.** -/
theorem ofJson_eq_ok_iff {text : String} {s : SpecNode} :
    ofJson text = .ok s ↔ ∃ d, Document.read text = .ok d ∧ ofDocument? d = some s := by
  unfold ofJson Document.read
  simp only [Reader.run_eq_ok_iff, reader_eq_ok_iff]
  constructor
  · rintro ⟨cs', ⟨d, hd, hs⟩, hblank⟩
    exact ⟨d, ⟨cs', hd, hblank⟩, hs⟩
  · rintro ⟨d, ⟨cs', hd, hblank⟩, hs⟩
    exact ⟨cs', ⟨d, hd, hs⟩, hblank⟩

end SpecNode

end Dataflow
