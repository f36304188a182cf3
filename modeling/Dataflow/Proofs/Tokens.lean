import Dataflow.Json.Printer
import Dataflow.Json.Reader

/-!
# Tokens of JSON texts

What each of the small readers does to the front of a text, for the readers of whole values to be
followed step by step. Blanks in front of a token make no difference, so what a reader leaves is told but
for them (`ReadsTo`). A printed text reads back whatever follows it (`text_print`), since its closing quote
is the first one that is not escaped. A number ends where the text does or where something else begins, and
so what is read of it alone is also read of it in front of a comma or a bracket (`LocalAt.number`).
-/

namespace Dataflow.Json.Reader

variable {α β σ : Type}

/-! ## One reader after another -/

/-- What the first reader leaves the second one reads. -/
theorem bind_eq {r : Reader α} {f : α → Reader β} {a : α} {cs cs' : List Char}
    (h : r cs = .ok (a, cs')) : (r >>= f) cs = f a cs' := by
  show (r cs >>= fun p => f p.1 p.2) = _
  rw [h]
  rfl

/-- What two readers read together was read by the first and then by the second. -/
theorem of_bind {r : Reader α} {f : α → Reader β} {b : β} {cs cs'' : List Char}
    (h : (r >>= f) cs = .ok (b, cs'')) :
    ∃ a cs', r cs = .ok (a, cs') ∧ f a cs' = .ok (b, cs'') := by
  have h : (r cs >>= fun p => f p.1 p.2) = .ok (b, cs'') := h
  cases hr : r cs with
  | error e =>
    rw [hr] at h
    cases h
  | ok p =>
    rw [hr] at h
    exact ⟨p.1, p.2, rfl, h⟩

/-! ## Tokens -/

/-- The next token is the first character that is not blank. -/
theorem token_eq {c : Char} {cs tail : List Char} (h : cs.dropWhile isBlank = c :: tail) :
    token cs = .ok (c, c :: tail) := by
  have htoken? : token? cs = .ok (some c, c :: tail) := by
    show Except.ok ((cs.dropWhile isBlank).head?, cs.dropWhile isBlank) = _
    rw [h]
    rfl
  exact bind_eq htoken?

/-- A token that was found is what blanks are followed by. -/
theorem of_token {c : Char} {cs cs' : List Char} (h : token cs = .ok (c, cs')) :
    cs.dropWhile isBlank = cs' ∧ ∃ tail, cs' = c :: tail := by
  obtain ⟨c?, cs₁, h₁, h⟩ := of_bind h
  cases h₁
  cases hdrop : cs.dropWhile isBlank with
  | nil => rw [hdrop] at h; cases h
  | cons d tail =>
    rw [hdrop] at h
    cases h
    exact ⟨rfl, tail, rfl⟩

/-! ## Texts -/

theorem hexValue?_digitChar : ∀ n < 16, hexValue? (Nat.digitChar n) = some n := by decide

/-- A character below 256 is read from its four digits, two of which are zero. -/
theorem codeUnit_digitChar {n : Nat} (hn : n < 256) (cs : List Char) :
    codeUnit ('0' :: '0' :: Nat.digitChar (n / 16) :: Nat.digitChar (n % 16) :: cs) = .ok (n, cs) := by
  have hzero : hexValue? '0' = some 0 := rfl
  simp only [codeUnit, hzero, hexValue?_digitChar _ (by omega : n / 16 < 16),
    hexValue?_digitChar _ (by omega : n % 16 < 16)]
  congr 2
  omega

/-- A control character is read from its escape. -/
theorem escaped_unicode {c : Char} (hc : c.toNat < 32) (cs : List Char) :
    escaped ('u' :: '0' :: '0' :: Nat.digitChar (c.toNat / 16) :: Nat.digitChar (c.toNat % 16) :: cs) =
      .ok (c, cs) := by
  show escapedCodePoint _ = _
  unfold escapedCodePoint
  rw [bind_eq (codeUnit_digitChar (by omega) cs)]
  have hlead : (0xdc00 ≤ c.toNat && c.toNat ≤ 0xdfff) = false := by
    simp only [Bool.and_eq_false_iff, decide_eq_false_iff_not]
    omega
  have htrail : (0xd800 ≤ c.toNat && c.toNat ≤ 0xdbff) = false := by
    simp only [Bool.and_eq_false_iff, decide_eq_false_iff_not]
    omega
  simp only [hlead, htrail, Bool.false_eq_true, if_false]
  show Except.ok (Char.ofNat c.toNat, cs) = _
  rw [Char.ofNat_toNat]

theorem textBody_cons (n : Nat) (seen : List Char) (c : Char) (cs : List Char) :
    textBody (n + 1) seen (c :: cs) =
      (if c = '"' then return seen
      else if c = '\\' then do
        let c ← escaped
        textBody n (c :: seen)
      else if c < ' ' then throw .malformed
      else textBody n (c :: seen) : Reader (List Char)) cs := rfl

/-- A character is read back from how it stands in a text. -/
theorem textBody_printedChar (n : Nat) (seen : List Char) (c : Char) (cs : List Char) :
    textBody (n + 1) seen (printedChar c ++ cs) = textBody n (c :: seen) cs := by
  unfold printedChar
  split
  · subst c; rfl
  split
  · subst c; rfl
  split
  · subst c; rfl
  split
  · subst c; rfl
  split
  · subst c; rfl
  split
  · subst c; rfl
  split
  · subst c; rfl
  split
  · rename_i hc
    have hc : c.toNat < 32 := hc
    exact (textBody_cons ..).trans (bind_eq (escaped_unicode hc cs))
  · rename_i hquote hslash _ _ _ _ _ hc
    rw [List.singleton_append, textBody_cons, if_neg hquote, if_neg hslash, if_neg hc]

/-- A text that is printed is read to its closing quote. -/
theorem textBody_print (cs : List Char) {n : Nat} (seen : List Char) (rest : List Char)
    (hn : cs.length < n) :
    textBody n seen (cs.flatMap printedChar ++ '"' :: rest) = .ok (cs.reverse ++ seen, rest) := by
  induction cs generalizing n seen with
  | nil =>
    obtain ⟨n, rfl⟩ := Nat.exists_eq_succ_of_ne_zero (Nat.ne_zero_of_lt hn)
    rfl
  | cons c cs ih =>
    obtain ⟨n, rfl⟩ := Nat.exists_eq_succ_of_ne_zero (Nat.ne_zero_of_lt hn)
    rw [List.flatMap_cons, List.append_assoc, textBody_printedChar,
      ih (c :: seen) (Nat.lt_of_succ_lt_succ hn), List.reverse_cons, List.append_assoc]
    rfl

/-- Every character is printed as something. -/
theorem printedChar_ne_nil (c : Char) : printedChar c ≠ [] := by
  unfold printedChar
  repeat' split
  all_goals exact List.cons_ne_nil _ _

/-- A text is no longer than it is when printed, so the bound of its reader is enough. -/
theorem length_le_flatMap_printedChar (cs : List Char) :
    cs.length ≤ (cs.flatMap printedChar).length := by
  induction cs with
  | nil => exact Nat.zero_le _
  | cons c cs ih =>
    have := List.length_pos_iff.2 (printedChar_ne_nil c)
    rw [List.flatMap_cons, List.length_append, List.length_cons]
    omega

/-- A printed text reads back, whatever follows it. -/
theorem text_print (s : String) (rest : List Char) : text (printText s ++ rest) = .ok (s, rest) := by
  have hshape : printText s ++ rest = '"' :: (s.toList.flatMap printedChar ++ '"' :: rest) := by
    simp [printText]
  have hlength := length_le_flatMap_printedChar s.toList
  rw [hshape]
  unfold text
  rw [bind_eq (r := skip) rfl, bind_eq (r := bound) rfl, List.drop_succ_cons, List.drop_zero,
    bind_eq (textBody_print s.toList [] rest (by rw [List.length_append]; omega))]
  show Except.ok (String.ofList (s.toList.reverse ++ []).reverse, rest) = _
  rw [List.append_nil, List.reverse_reverse, String.ofList_toList]

/-! ## Arrays and objects -/

/-- A text that begins behind an element: nothing, or what ends an element. -/
def Delimited (cs : List Char) : Prop := ∀ c ∈ cs.head?, c = ',' ∨ c = ']' ∨ c = '}'

/-- What delimits a number is no blank. -/
theorem Delimited.dropWhile {cs : List Char} (h : Delimited cs) : cs.dropWhile isBlank = cs := by
  cases cs with
  | nil => rfl
  | cons c cs =>
    rcases h c rfl with rfl | rfl | rfl <;> rfl

/-- Reading leaves the given text, but for blanks. -/
def ReadsTo (r : Reader α) (cs : List Char) (a : α) (rest : List Char) : Prop :=
  ∃ cs', r cs = .ok (a, cs') ∧ cs'.dropWhile isBlank = rest

/-- At the closing bracket the elements end. -/
theorem items_nil (item : σ → Reader σ) (n : Nat) (isFirst : Bool) (s : σ) {cs rest : List Char}
    (h : cs.dropWhile isBlank = ']' :: rest) :
    items item (n + 1) isFirst s cs = .ok (s, ']' :: rest) := by
  have hanother : anotherItem isFirst cs = .ok (false, ']' :: rest) := bind_eq (token_eq h)
  exact bind_eq hanother

/-- The first element or a further one is read from where it begins. -/
theorem items_cons (item : σ → Reader σ) (n : Nat) (isFirst : Bool) (s : σ) {c : Char}
    {cs tail next : List Char}
    (h : cs.dropWhile isBlank = ((if isFirst then [] else [',']) ++ next).dropWhile isBlank)
    (hnext : next.dropWhile isBlank = c :: tail) (hc : c ≠ ']') :
    items item (n + 1) isFirst s cs = (item s >>= items item n false) (c :: tail) := by
  have hanother : anotherItem isFirst cs = .ok (true, c :: tail) := by
    cases isFirst with
    | true =>
      refine (bind_eq (token_eq (h.trans hnext))).trans ?_
      split
      · exact absurd rfl hc
      · rfl
    | false =>
      refine (bind_eq (token_eq h)).trans ?_
      refine (bind_eq (r := skip) rfl).trans ?_
      refine (bind_eq (token_eq hnext)).trans ?_
      rw [if_neg hc]
      rfl
  exact bind_eq hanother

/-- There are no entries before a closing brace. -/
theorem entries_nil (entry : σ → String → Reader σ) (n : Nat) (isFirst : Bool) (s : σ)
    {cs rest : List Char} (h : cs.dropWhile isBlank = '}' :: rest) :
    entries entry (n + 1) isFirst s cs = .ok (s, '}' :: rest) := by
  have hanother : anotherEntry isFirst cs = .ok (false, '}' :: rest) := bind_eq (token_eq h)
  exact bind_eq hanother

/-- The first entry or a further one is read from behind its name. -/
theorem entries_cons (entry : σ → String → Reader σ) (n : Nat) (isFirst : Bool) (s : σ)
    (name : String) {cs tail : List Char}
    (h : cs.dropWhile isBlank = (if isFirst then [] else [',']) ++ printText name ++ tail) :
    entries entry (n + 1) isFirst s cs = (entry s name >>= entries entry n false) tail := by
  have hanother : anotherEntry isFirst cs = .ok (true, printText name ++ tail) := by
    cases isFirst with
    | true => exact bind_eq (token_eq h)
    | false =>
      refine (bind_eq (token_eq h)).trans ?_
      refine (bind_eq (r := skip) rfl).trans ?_
      exact bind_eq (token_eq (rfl : (printText name ++ tail).dropWhile isBlank = printText name ++ tail))
  refine (bind_eq hanother).trans ?_
  exact bind_eq (text_print name tail)

/-- A colon is read, whatever blanks come before it. -/
theorem colon_eq {cs tail : List Char} (h : cs.dropWhile isBlank = ':' :: tail) :
    colon cs = .ok ((), tail) := bind_eq (token_eq h)

/-- A bracket is closed, whatever blanks come before it. -/
theorem close_eq {bracket : Char} {cs tail : List Char} (h : cs.dropWhile isBlank = bracket :: tail) :
    close bracket cs = .ok ((), tail) := by
  refine (bind_eq (token_eq h)).trans ?_
  rw [if_pos rfl]
  rfl

/-! ## Numbers -/

/-- What is read of the text is read of it in front of any delimited one as well. -/
def LocalAt (r : Reader α) (cs : List Char) : Prop :=
  ∀ a cs' rest, Delimited rest → r cs = .ok (a, cs') → r (cs ++ rest) = .ok (a, cs' ++ rest)

theorem LocalAt.pure (a : α) (cs : List Char) : LocalAt (Pure.pure a : Reader α) cs :=
  fun _ _ _ _ h => by cases h; rfl

theorem LocalAt.throw (e : ReadError) (cs : List Char) : LocalAt (throw e : Reader α) cs :=
  fun _ _ _ _ h => by cases h

/-- Readers in sequence are local if each of them is. -/
theorem LocalAt.bind {r : Reader α} {f : α → Reader β} {cs : List Char} (hr : LocalAt r cs)
    (hf : ∀ a cs', LocalAt (f a) cs') : LocalAt (r >>= f) cs := by
  intro b cs'' rest hrest h
  obtain ⟨a, cs', ha, h⟩ := of_bind h
  rw [bind_eq (hr a cs' rest hrest ha)]
  exact hf a cs' b cs'' rest hrest h

theorem LocalAt.next (cs : List Char) : LocalAt Reader.next cs := by
  intro a cs' rest _ h
  cases cs with
  | nil => cases h
  | cons c cs => cases h; rfl

theorem LocalAt.skip_bind {f : Unit → Reader α} {c : Char} {cs : List Char} (hf : LocalAt (f ()) cs) :
    LocalAt (skip >>= f) (c :: cs) := hf

/-- Who looks ahead and takes the end of the text for what ends an element reads locally. -/
theorem LocalAt.peek?_bind {f : Option Char → Reader α} {cs : List Char}
    (hdelimiter : ∀ c, c = ',' ∨ c = ']' ∨ c = '}' → f (some c) = f none)
    (hnone : LocalAt (f none) []) (hsome : ∀ c cs, LocalAt (f (some c)) (c :: cs)) :
    LocalAt (peek? >>= f) cs := by
  intro a cs' rest hrest h
  cases cs with
  | nil =>
    have h : f none [] = .ok (a, cs') := h
    have hread := hnone a cs' rest hrest h
    cases rest with
    | nil => exact hread
    | cons c rest =>
      show f (some c) (c :: rest) = _
      rw [hdelimiter c (hrest c rfl)]
      exact hread
  | cons c cs => exact hsome c cs a cs' rest hrest h

/-- No digit delimits a number. -/
theorem isDigit_of_delimited {c : Char} {rest : List Char} (h : Delimited (c :: rest)) :
    c.isDigit = false := by
  rcases h c rfl with rfl | rfl | rfl <;> rfl

/-- Whether a digit follows is known from the text itself, as no digit comes after it. -/
theorem LocalAt.digitFollows (cs : List Char) : LocalAt Reader.digitFollows cs := by
  intro a cs' rest hrest h
  cases cs with
  | nil =>
    cases h
    cases rest with
    | nil => rfl
    | cons c rest =>
      show Except.ok (c.isDigit, c :: rest) = _
      rw [isDigit_of_delimited hrest]
      rfl
  | cons c cs => cases h; rfl

/-- Gathering stops at the end of the text, or where no digit follows it. -/
theorem gather_append (cs : List Char) {rest : List Char} (hrest : Delimited rest) (s n : Nat) :
    gather s n (cs ++ rest) =
      ((gather s n cs).1, (gather s n cs).2.1, (gather s n cs).2.2 ++ rest) := by
  induction cs generalizing s n with
  | nil =>
    cases rest with
    | nil => rfl
    | cons c rest =>
      show gather s n (c :: rest) = (s, n, c :: rest)
      unfold gather
      simp [isDigit_of_delimited hrest]
  | cons c cs ih =>
    rw [List.cons_append]
    unfold gather
    dsimp only
    split
    · exact ih _ _
    · rfl

/-- Digits end where the text ends, at the latest. -/
theorem LocalAt.digits (s : Nat) (cs : List Char) : LocalAt (Reader.digits s) cs := by
  intro a cs' rest hrest h
  cases h
  show Except.ok (((gather s 0 (cs ++ rest)).1, (gather s 0 (cs ++ rest)).2.1),
    (gather s 0 (cs ++ rest)).2.2) = _
  rw [gather_append cs hrest]

/-- The digits at the beginning are the same, whatever delimits the text. -/
theorem takeWhile_isDigit_append (cs : List Char) {rest : List Char} (hrest : Delimited rest) :
    (cs ++ rest).takeWhile Char.isDigit = cs.takeWhile Char.isDigit := by
  induction cs with
  | nil =>
    cases rest with
    | nil => rfl
    | cons c rest => exact List.takeWhile_cons_of_neg (by simp [isDigit_of_delimited hrest])
  | cons c cs ih => simp only [List.cons_append, List.takeWhile_cons, ih]

/-- What is left after the digits is followed by what delimits the text. -/
theorem dropWhile_isDigit_append (cs : List Char) {rest : List Char} (hrest : Delimited rest) :
    (cs ++ rest).dropWhile Char.isDigit = cs.dropWhile Char.isDigit ++ rest := by
  induction cs with
  | nil =>
    cases rest with
    | nil => rfl
    | cons c rest => exact List.dropWhile_cons_of_neg (by simp [isDigit_of_delimited hrest])
  | cons c cs ih =>
    simp only [List.cons_append, List.dropWhile_cons, ih]
    split <;> rfl

/-- Taking the digits in front is local. -/
theorem LocalAt.takeDigits (f : List Char → α) (cs : List Char) :
    LocalAt (fun cs => .ok (f (cs.takeWhile Char.isDigit), cs.dropWhile Char.isDigit) : Reader α) cs := by
  intro a cs' rest hrest h
  cases h
  dsimp only
  rw [takeWhile_isDigit_append cs hrest, dropWhile_isDigit_append cs hrest]

theorem LocalAt.dropDigits (cs : List Char) : LocalAt Reader.dropDigits cs := takeDigits List.length cs

/-- The mark of an exponent is known from one character. -/
theorem LocalAt.exponentMark (cs : List Char) : LocalAt Reader.exponentMark cs := by
  refine .peek?_bind ?_ (.pure _ _) fun c cs => ?_
  · rintro c (rfl | rfl | rfl) <;> rfl
  · split
    · exact .skip_bind (.pure _ _)
    · exact .skip_bind (.pure _ _)
    · exact .pure _ _

theorem LocalAt.real (isPositive : Bool) (significand : Nat) (exponent : Int) (cs : List Char) :
    LocalAt (Reader.real isPositive significand exponent) cs := by
  unfold Reader.real
  split
  · exact .pure _ _
  · exact .throw _ _

theorem LocalAt.throw_bind (e : ReadError) (f : α → Reader β) (cs : List Char) :
    LocalAt (MonadExcept.throw e >>= f) cs :=
  fun _ _ _ _ h => by cases (show Except.error e = _ from h)

/-- What follows the sign of an exponent, for whatever is made of its digits. -/
theorem LocalAt.magnitude (f : Char → List Char → α) (cs : List Char) : LocalAt (do
    let first ← Reader.next
    if !first.isDigit then MonadExcept.throw .malformed
    let rest ← fun cs => .ok (cs.takeWhile Char.isDigit, cs.dropWhile Char.isDigit)
    return f first rest : Reader α) cs := by
  refine (next cs).bind fun first cs => ?_
  dsimp only
  split
  · exact throw_bind _ _ cs
  · exact (takeDigits id cs).bind fun rest cs => pure _ _

/-- An exponent ends with its digits. -/
theorem LocalAt.exponent (cs : List Char) : LocalAt Reader.exponent cs := by
  unfold Reader.exponent
  dsimp only
  refine .peek?_bind ?_ ?_ fun c cs => ?_
  · rintro c (rfl | rfl | rfl) <;> rfl
  · exact (pure _ _).bind fun _ cs => magnitude _ cs
  · split
    · exact skip_bind ((pure _ _).bind fun _ cs => magnitude _ cs)
    · exact skip_bind ((pure _ _).bind fun _ cs => magnitude _ cs)
    · exact (pure _ _).bind fun _ cs => magnitude _ cs

theorem LocalAt.withExponent (isPositive : Bool) (significand : Nat) (places : Int) (cs : List Char) :
    LocalAt (Reader.withExponent isPositive significand places) cs := by
  unfold Reader.withExponent
  refine (exponentMark cs).bind fun hasMark cs => ?_
  split
  · exact (exponent cs).bind fun e cs => real _ _ _ cs
  · exact real _ _ _ cs

/-- A fraction ends with its digits, or with an exponent. -/
theorem LocalAt.fraction (isPositive : Bool) (significand : Nat) (places : Int) (cs : List Char) :
    LocalAt (Reader.fraction isPositive significand places) cs := by
  unfold Reader.fraction
  dsimp only
  refine (digits significand cs).bind fun gathered cs => ?_
  refine (digitFollows cs).bind fun follows cs => ?_
  split
  · exact ((dropDigits cs).bind fun _ cs => pure _ cs).bind fun _ cs => withExponent _ _ _ cs
  · split
    · exact ((next cs).bind fun _ cs => pure _ cs).bind fun _ cs => throw_bind _ _ cs
    · exact withExponent _ _ _ cs

/-- An integer with too many digits ends as others do. -/
theorem LocalAt.longInteger (isPositive : Bool) (significand : Nat) (cs : List Char) :
    LocalAt (Reader.longInteger isPositive significand) cs := by
  unfold Reader.longInteger
  refine (dropDigits cs).bind fun places cs => ?_
  refine .peek?_bind ?_ (withExponent _ _ _ _) fun c cs => ?_
  · rintro c (rfl | rfl | rfl) <;> rfl
  · split
    · exact skip_bind (fraction _ _ _ cs)
    · exact withExponent _ _ _ _

/-- After an integer come a fraction, an exponent or the end. -/
theorem LocalAt.afterInteger (isPositive : Bool) (significand : Nat) (cs : List Char) :
    LocalAt (Reader.afterInteger isPositive significand) cs := by
  unfold Reader.afterInteger
  refine .peek?_bind ?_ (pure _ _) fun c cs => ?_
  · rintro c (rfl | rfl | rfl) <;> rfl
  · split
    · exact skip_bind (fraction _ _ _ cs)
    · exact withExponent _ _ _ _
    · exact withExponent _ _ _ _
    · exact pure _ _

/-- An integer ends with its digits, and the first of them decides about the others. -/
theorem LocalAt.unsigned (isPositive : Bool) (cs : List Char) :
    LocalAt (Reader.unsigned isPositive) cs := by
  unfold Reader.unsigned
  refine (next cs).bind fun first cs => ?_
  split
  · refine (digitFollows cs).bind fun follows cs => ?_
    split
    · exact throw_bind _ _ cs
    · exact afterInteger _ _ cs
  split
  · refine (digits _ cs).bind fun gathered cs => ?_
    refine (digitFollows cs).bind fun follows cs => ?_
    split
    · exact longInteger _ _ cs
    · exact afterInteger _ _ cs
  · exact throw _ cs

/-- A number is read from its own characters, whatever delimits it. -/
theorem LocalAt.number (cs : List Char) : LocalAt Reader.number cs := by
  unfold Reader.number
  refine .peek?_bind ?_ (unsigned _ _) fun c cs => ?_
  · rintro c (rfl | rfl | rfl) <;> rfl
  · split
    · exact skip_bind (unsigned _ cs)
    · exact unsigned _ _

end Dataflow.Json.Reader
