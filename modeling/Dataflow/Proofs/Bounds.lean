import Dataflow.Proofs.Printing

/-!
# Bounds of reading

Every reader leaves at most the characters that it was given, and a value takes at least one of them
(`Reader.Takes`). So a bound above the number of characters left is never come to: whatever the bound, the
same is read, or refused for the same reason (`Reader.value_bound`), and loops may be compared that run on
different bounds.
-/

namespace Dataflow.Json.Reader

variable {α β σ : Type}

/-! ## Characters taken -/

/-- What is left after blanks and one more character is shorter. -/
theorem length_lt_of_dropWhile {c : Char} {cs tail : List Char} (h : cs.dropWhile isBlank = c :: tail) :
    tail.length < cs.length := by
  have hle := (List.dropWhile_suffix (l := cs) isBlank).length_le
  rwa [h] at hle

/-- Whoever reads to the end takes at least so many characters. -/
def Takes (r : Reader α) (k : Nat) : Prop :=
  ∀ cs a cs', r cs = .ok (a, cs') → cs'.length + k ≤ cs.length

namespace Takes

variable {k : Nat}

theorem pure (a : α) : Takes (Pure.pure a) 0 := fun _ _ _ h => by cases h; exact Nat.le_refl _

theorem throw (e : ReadError) : Takes (MonadExcept.throw e : Reader α) k := fun _ _ _ h => by cases h

theorem weaken {r : Reader α} (h : Takes r k) : Takes r 0 := fun cs a cs' hr =>
  Nat.le_trans (Nat.le_add_right _ k) (h cs a cs' hr)

/-- What is taken first is taken, whatever is read behind it. -/
theorem bind {r : Reader α} {f : α → Reader β} (hr : Takes r k) (hf : ∀ a, Takes (f a) 0) :
    Takes (r >>= f) k := by
  intro cs b cs'' h
  obtain ⟨a, cs', ha, hb⟩ := of_bind h
  exact Nat.le_trans (Nat.add_le_add_right (hf a cs' b cs'' hb) k) (hr cs a cs' ha)

/-- What is taken last is taken, whatever is read before it. -/
theorem after {r : Reader α} {f : α → Reader β} (hr : Takes r 0) (hf : ∀ a, Takes (f a) k) :
    Takes (r >>= f) k := by
  intro cs b cs'' h
  obtain ⟨a, cs', ha, hb⟩ := of_bind h
  exact Nat.le_trans (hf a cs' b cs'' hb) (hr cs a cs' ha)

/-- To read a character takes one. -/
theorem next : Takes Reader.next 1 := by
  intro cs a cs' h
  cases cs with
  | nil => cases h
  | cons c cs => cases h; exact Nat.le_refl _

theorem skip : Takes Reader.skip 0 := fun cs _ _ h => by
  cases h
  exact List.length_drop ▸ Nat.sub_le _ _

theorem peek? : Takes Reader.peek? 0 := fun _ _ _ h => by cases h; exact Nat.le_refl _

theorem bound : Takes Reader.bound 0 := fun _ _ _ h => by cases h; exact Nat.le_refl _

/-- A token that is looked at is not taken, but blanks before it are. -/
theorem token : Takes Reader.token 0 := fun cs c cs' h => by
  obtain ⟨rfl, -⟩ := of_token h
  exact (List.dropWhile_suffix _).length_le

/-- Behind a token stands what follows it. -/
theorem token_bind {f : Char → Reader α}
    (hf : ∀ c tail a cs', f c (c :: tail) = .ok (a, cs') → cs'.length + k ≤ tail.length + 1) :
    Takes (Reader.token >>= f) k := by
  intro cs a cs' h
  obtain ⟨c, cs₁, htoken, h⟩ := of_bind h
  have hle := token cs c cs₁ htoken
  obtain ⟨-, tail, rfl⟩ := of_token htoken
  exact Nat.le_trans (hf c tail a cs' h) hle

/-- A word that is expected may be taken in part when it is not found. -/
theorem expect (cs : List Char) : Takes (Reader.expect cs) 0 := by
  induction cs with
  | nil => exact pure _
  | cons c cs ih =>
    unfold Reader.expect
    refine next.weaken.after fun c => ?_
    split
    · exact ih
    · exact throw _

/-! ## Numbers -/

theorem digitFollows : Takes Reader.digitFollows 0 := fun _ _ _ h => by cases h; exact Nat.le_refl _

theorem takeDigits (f : List Char → α) :
    Takes (fun cs => .ok (f (cs.takeWhile Char.isDigit), cs.dropWhile Char.isDigit) : Reader α) 0 :=
  fun _ _ _ h => by cases h; exact (List.dropWhile_suffix _).length_le

theorem dropDigits : Takes Reader.dropDigits 0 := takeDigits List.length

/-- What is left of digits is no longer than all of them. -/
theorem length_gather_le (cs : List Char) (significand count : Nat) :
    (gather significand count cs).2.2.length ≤ cs.length := by
  induction cs generalizing significand count with
  | nil => exact Nat.le_refl _
  | cons c cs ih =>
    unfold gather
    dsimp only
    split
    · exact Nat.le_succ_of_le (ih _ _)
    · exact Nat.le_refl _

theorem digits (significand : Nat) : Takes (Reader.digits significand) 0 := fun cs _ _ h => by
  cases h
  exact length_gather_le cs significand 0

theorem exponentMark : Takes Reader.exponentMark 0 := by
  unfold Reader.exponentMark
  refine peek?.after fun c? => ?_
  split
  · exact skip.after fun _ => pure _
  · exact skip.after fun _ => pure _
  · exact pure _

/-- A number is made of what was read, which takes nothing more. -/
theorem real (isPositive : Bool) (significand : Nat) (exponent : Int) :
    Takes (Reader.real isPositive significand exponent) 0 := by
  unfold Reader.real
  split
  · exact pure _
  · exact throw _

/-- What follows the sign of an exponent, for whatever is made of its digits. -/
theorem magnitude (f : Char → List Char → α) : Takes (do
    let first ← Reader.next
    if !first.isDigit then MonadExcept.throw .malformed
    let rest ← fun cs => .ok (cs.takeWhile Char.isDigit, cs.dropWhile Char.isDigit)
    return f first rest : Reader α) 0 := by
  refine next.weaken.after fun first => ?_
  dsimp only
  split
  · exact bind (throw _) fun _ => (takeDigits id).after fun _ => pure _
  · exact (takeDigits id).after fun _ => pure _

/-- An exponent may be without digits as far as this bound goes. -/
theorem exponent : Takes Reader.exponent 0 := by
  unfold Reader.exponent
  dsimp only
  refine peek?.after fun c? => ?_
  split
  · exact skip.after fun _ => (pure _).after fun _ => magnitude _
  · exact skip.after fun _ => (pure _).after fun _ => magnitude _
  · exact (pure _).after fun _ => magnitude _

theorem withExponent (isPositive : Bool) (significand : Nat) (places : Int) :
    Takes (Reader.withExponent isPositive significand places) 0 := by
  unfold Reader.withExponent
  refine exponentMark.after fun hasMark => ?_
  split
  · exact exponent.after fun _ => real _ _ _
  · exact real _ _ _

theorem fraction (isPositive : Bool) (significand : Nat) (places : Int) :
    Takes (Reader.fraction isPositive significand places) 0 := by
  unfold Reader.fraction
  dsimp only
  refine (digits significand).after fun gathered => digitFollows.after fun follows => ?_
  split
  · exact (dropDigits.after fun _ => pure _).after fun _ => withExponent _ _ _
  split
  · exact (next.weaken.after fun _ => pure _).after fun _ => bind (throw _) fun _ => withExponent _ _ _
  · exact withExponent _ _ _

theorem longInteger (isPositive : Bool) (significand : Nat) :
    Takes (Reader.longInteger isPositive significand) 0 := by
  unfold Reader.longInteger
  refine dropDigits.after fun places => peek?.after fun c? => ?_
  split
  · exact skip.after fun _ => fraction _ _ _
  · exact withExponent _ _ _

theorem afterInteger (isPositive : Bool) (significand : Nat) :
    Takes (Reader.afterInteger isPositive significand) 0 := by
  unfold Reader.afterInteger
  refine peek?.after fun c? => ?_
  split
  · exact skip.after fun _ => fraction _ _ _
  · exact withExponent _ _ _
  · exact withExponent _ _ _
  · exact pure _

/-- A number without its sign takes its first digit at least. -/
theorem unsigned (isPositive : Bool) : Takes (Reader.unsigned isPositive) 1 := by
  unfold Reader.unsigned
  refine next.bind fun first => ?_
  dsimp only
  split
  · refine digitFollows.after fun follows => ?_
    split
    · exact bind (throw _) fun _ => afterInteger _ _
    · exact afterInteger _ _
  split
  · refine (digits _).after fun gathered => digitFollows.after fun follows => ?_
    split
    · exact longInteger _ _
    · exact afterInteger _ _
  · exact throw _

theorem number : Takes Reader.number 1 := by
  unfold Reader.number
  refine peek?.after fun c? => ?_
  split
  · exact skip.after fun _ => unsigned false
  · exact unsigned true

/-! ## Texts -/

/-- Four digits of an escape are read or refused. -/
theorem codeUnit : Takes Reader.codeUnit 0 := by
  intro cs a cs' h
  unfold Reader.codeUnit at h
  split at h
  · split at h
    · cases h
      simp only [List.length_cons]
      omega
    · cases h
  · cases h

/-- An escape may be one of a pair, whose second half is read as well. -/
theorem escapedCodePoint : Takes Reader.escapedCodePoint 0 := by
  have hsurrogates (lead : Nat) : Takes (do
      Reader.expect ['\\', 'u']
      let trail ← Reader.codeUnit
      if trail < 0xdc00 || 0xdfff < trail then MonadExcept.throw .malformed
      return Char.ofNat (0x10000 + (lead - 0xd800) * 0x400 + (trail - 0xdc00)) : Reader Char) 0 := by
    refine (expect _).after fun _ => codeUnit.after fun trail => ?_
    dsimp only
    split
    · exact bind (throw _) fun _ => pure _
    · exact pure _
  unfold Reader.escapedCodePoint
  refine codeUnit.after fun lead => ?_
  dsimp only
  split
  · refine bind (throw _) fun _ => ?_
    split
    · exact hsurrogates lead
    · exact pure _
  · split
    · exact hsurrogates lead
    · exact pure _

theorem escaped : Takes Reader.escaped 0 := by
  unfold Reader.escaped
  refine next.weaken.after fun c => ?_
  split
  case h_9 => exact escapedCodePoint
  case h_10 => exact throw _
  all_goals exact pure _

/-- A text takes its closing quote at least. -/
theorem textBody (n : Nat) (seen : List Char) : Takes (Reader.textBody n seen) 1 := by
  induction n generalizing seen with
  | zero => exact throw _
  | succ n ih =>
    refine next.bind fun c => ?_
    split
    · exact pure _
    split
    · exact escaped.after fun c => (ih _).weaken
    split
    · exact throw _
    · exact (ih _).weaken

theorem text : Takes Reader.text 1 := by
  unfold Reader.text
  exact skip.after fun _ => bound.after fun n => (textBody n []).bind fun _ => pure _

/-! ## Values -/

/-- Every scalar takes its first character. -/
theorem scalar (c : Char) : Takes (Reader.scalar c) 1 := by
  have hletters (c : Char) (cs : List Char) : Takes (Reader.expect (c :: cs)) 1 := by
    refine next.bind fun c => ?_
    split
    · exact expect cs
    · exact throw _
  unfold Reader.scalar
  split
  · exact (hletters _ _).bind fun _ => pure _
  · exact (hletters _ _).bind fun _ => pure _
  · exact (hletters _ _).bind fun _ => pure _
  · exact text.bind fun _ => pure _
  · split
    · exact number.bind fun _ => pure _
    · exact throw _

/-- To close a list or an object gives back no character. -/
theorem close (bracket : Char) : Takes (Reader.close bracket) 0 := by
  unfold Reader.close
  refine token.after fun c => ?_
  split
  · exact skip
  · exact throw _

theorem colon : Takes Reader.colon 0 := close ':'

/-- To look for another item takes a comma or nothing. -/
theorem anotherItem (isFirst : Bool) : Takes (Reader.anotherItem isFirst) 0 := by
  unfold Reader.anotherItem
  refine token.after fun c => ?_
  split
  · exact pure _
  split
  · exact pure _
  split
  · refine skip.after fun _ => token.after fun c => ?_
    split
    · exact throw _
    · exact pure _
  · exact throw _

/-- To look for another entry takes its name, or nothing. -/
theorem anotherEntry (isFirst : Bool) : Takes (Reader.anotherEntry isFirst) 0 := by
  unfold Reader.anotherEntry
  refine token.after fun c => ?_
  split
  · exact pure _
  split
  · split
    · exact pure _
    · exact throw _
  split
  · refine skip.after fun _ => token.after fun c => ?_
    split
    · exact pure _
    · exact throw _
  · exact throw _

/-- Items are taken one after the other. -/
theorem items {item : σ → Reader σ} (hitem : ∀ s, Takes (item s) 0) (n : Nat) (isFirst : Bool) (s : σ) :
    Takes (Reader.items item n isFirst s) 0 := by
  induction n generalizing isFirst s with
  | zero => exact throw _
  | succ n ih =>
    refine (anotherItem isFirst).after fun another => ?_
    split
    · exact (hitem s).after fun s => ih false s
    · exact pure _

/-- Entries are taken one after the other. -/
theorem entries {entry : σ → String → Reader σ} (hentry : ∀ s name, Takes (entry s name) 0) (n : Nat)
    (isFirst : Bool) (s : σ) : Takes (Reader.entries entry n isFirst s) 0 := by
  induction n generalizing isFirst s with
  | zero => exact throw _
  | succ n ih =>
    refine (anotherEntry isFirst).after fun another => ?_
    split
    · exact text.weaken.after fun name => (hentry s name).after fun s => ih false s
    · exact pure _

theorem itemReader {n depth : Nat} (hvalue : Takes (Reader.value n depth) 1) (seen : List Document) :
    Takes (Reader.itemReader n depth seen) 1 := hvalue.bind fun _ => pure _

theorem entryReader {n depth : Nat} (hvalue : Takes (Reader.value n depth) 1)
    (seen : List (String × Document)) (name : String) : Takes (Reader.entryReader n depth seen name) 0 :=
  colon.after fun _ => hvalue.weaken.after fun _ => pure _

/-- Every value takes a character, so that the length of a text bounds the number of values in it. -/
theorem value (n depth : Nat) : Takes (Reader.value n depth) 1 := by
  induction n generalizing depth with
  | zero => exact throw _
  | succ n ih =>
    -- The bracket is a character, whatever stands inside.
    have hbracket {r : Reader Document} (hr : Takes r 0) {c : Char} {tail cs' : List Char} {d : Document}
        (h : (Reader.skip >>= fun _ => r) (c :: tail) = .ok (d, cs')) : cs'.length + 1 ≤ tail.length + 1 :=
      Nat.succ_le_succ (hr tail d cs' h)
    refine token_bind fun c tail d cs' h => ?_
    dsimp only at h
    split at h
    · split at h
      · cases h
      split at h
      · have hitems := items (fun seen => (itemReader (ih (depth - 1)) seen).weaken) n true []
        exact hbracket (hitems.after fun _ => (close _).after fun _ => pure _) h
      · have hentries := entries (entryReader (ih (depth - 1))) n true []
        exact hbracket (hentries.after fun _ => (close _).after fun _ => pure _) h
    · exact scalar c _ _ _ h

end Takes

/-! ## Bounds -/

/-- Readers that read the same first, and then the same of what is left. -/
theorem bind_congr {r r' : Reader α} {f f' : α → Reader β} {cs : List Char} (hr : r cs = r' cs)
    (hf : ∀ a cs', r cs = .ok (a, cs') → f a cs' = f' a cs') : (r >>= f) cs = (r' >>= f') cs := by
  show (r cs >>= fun p => f p.1 p.2) = (r' cs >>= fun p => f' p.1 p.2)
  rw [← hr]
  cases h : r cs with
  | error e => rfl
  | ok p => exact hf p.1 p.2 h

/-- Elements are read alike under any two bounds, if each is and takes a character. -/
theorem items_bound {item item' : σ → Reader σ} {k : Nat} (htakes : ∀ s, Takes (item s) 1)
    (hitem : ∀ s cs, cs.length ≤ k → item s cs = item' s cs) {n m : Nat} (isFirst : Bool) (s : σ)
    {cs : List Char} (hk : cs.length ≤ k) (hn : cs.length < n) (hm : cs.length < m) :
    items item n isFirst s cs = items item' m isFirst s cs := by
  induction n generalizing m isFirst s cs with
  | zero => exact absurd hn (Nat.not_lt_zero _)
  | succ n ih =>
    obtain ⟨m, rfl⟩ := Nat.exists_eq_succ_of_ne_zero (Nat.ne_zero_of_lt hm)
    refine bind_congr rfl fun another cs₁ hanother => ?_
    have hle := Takes.anotherItem isFirst _ _ _ hanother
    split
    · refine bind_congr (hitem s cs₁ (by omega)) fun s' cs₂ hs' => ?_
      have hlt := htakes s _ _ _ hs'
      exact ih false s' (by omega) (by omega) (by omega)
    · rfl

/-- Entries are read alike under any two bounds, if each is. -/
theorem entries_bound {entry entry' : σ → String → Reader σ} {k : Nat}
    (htakes : ∀ s name, Takes (entry s name) 0)
    (hentry : ∀ s name cs, cs.length ≤ k → entry s name cs = entry' s name cs) {n m : Nat} (isFirst : Bool)
    (s : σ) {cs : List Char} (hk : cs.length ≤ k) (hn : cs.length < n) (hm : cs.length < m) :
    entries entry n isFirst s cs = entries entry' m isFirst s cs := by
  induction n generalizing m isFirst s cs with
  | zero => exact absurd hn (Nat.not_lt_zero _)
  | succ n ih =>
    obtain ⟨m, rfl⟩ := Nat.exists_eq_succ_of_ne_zero (Nat.ne_zero_of_lt hm)
    refine bind_congr rfl fun another cs₁ hanother => ?_
    have hle := Takes.anotherEntry isFirst _ _ _ hanother
    split
    · refine bind_congr rfl fun name cs₂ hname => ?_
      have hlt := Takes.text _ _ _ hname
      refine bind_congr (hentry s name cs₂ (by omega)) fun s' cs₃ hs' => ?_
      have hle' := htakes s name _ _ _ hs'
      exact ih false s' (by omega) (by omega) (by omega)
    · rfl

/-- **A value is read alike under any two bounds.** -/
theorem value_bound {n m : Nat} (depth : Nat) {cs : List Char} (hn : cs.length < n) (hm : cs.length < m) :
    value n depth cs = value m depth cs := by
  induction n generalizing m depth cs with
  | zero => exact absurd hn (Nat.not_lt_zero _)
  | succ n ih =>
    obtain ⟨m, rfl⟩ := Nat.exists_eq_succ_of_ne_zero (Nat.ne_zero_of_lt hm)
    cases hdrop : cs.dropWhile isBlank with
    | nil =>
      refine bind_congr rfl fun c cs₁ htoken => ?_
      obtain ⟨rfl, tail, hcons⟩ := of_token htoken
      cases hdrop.symm.trans hcons
    | cons c tail =>
      have hlt := length_lt_of_dropWhile hdrop
      cases hbracket : (c = '[' || c = '{' : Bool) with
      | false => rw [value_scalar hdrop hbracket, value_scalar hdrop hbracket]
      | true =>
        cases depth with
        | zero => rw [value_nested hdrop hbracket, value_nested hdrop hbracket]
        | succ depth =>
          have hvalue {cs' : List Char} (hle : cs'.length ≤ tail.length) :
              value n depth cs' = value m depth cs' := ih depth (by omega) (by omega)
          simp only [Bool.or_eq_true, decide_eq_true_eq] at hbracket
          rcases hbracket with rfl | rfl
          · rw [value_array hdrop, value_array hdrop]
            refine bind_congr (items_bound (Takes.itemReader (.value n depth)) (fun _ _ hle => ?_) true []
              (Nat.le_refl _) (by omega) (by omega)) fun _ _ _ => rfl
            exact bind_congr (hvalue hle) fun _ _ _ => rfl
          · rw [value_object hdrop, value_object hdrop]
            refine bind_congr (entries_bound (Takes.entryReader (.value n depth)) (fun _ _ _ hle => ?_) true []
              (Nat.le_refl _) (by omega) (by omega)) fun _ _ _ => rfl
            refine bind_congr rfl fun _ cs₁ hcolon => bind_congr (hvalue ?_) fun _ _ _ => rfl
            exact Nat.le_trans (Takes.colon _ _ _ hcolon) hle

/-- A document is read as a value is, under any bound. -/
theorem document_eq (nested : Nat) {cs : List Char} {n : Nat} (hn : cs.length < n) :
    document nested cs = value n (nestingLimit - nested) cs :=
  value_bound (nestingLimit - nested) (Nat.lt_succ_self _) hn

end Dataflow.Json.Reader
