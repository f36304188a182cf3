import Dataflow.Proofs.Doubles
import Dataflow.Proofs.Printing

/-!
# What can be read

Whatever a text holds, a document read of it nests no deeper than the reader was told, and all its numbers
are finite: integers because 64 bits are, and reals because numbers out of range are refused
(`Double.isFinite_of_scaled?`). A property of what a reader yields is put together from those of its parts
(`Reader.Yields`), for loops as one that every round keeps.
-/

namespace Dataflow.Json

/-! ## Documents that can be read -/

/-- A list nests as deep as the deepest of its items. -/
theorem itemNesting_le {ds : List Document} {k : Nat} :
    itemNesting ds ≤ k ↔ ∀ d ∈ ds, d.nesting ≤ k := by
  induction ds with
  | nil => simp [itemNesting]
  | cons d ds ih => simp [itemNesting, ih]

/-- The numbers of a list are those of its items. -/
theorem mem_itemNumbers {ds : List Document} {x : Number} :
    x ∈ itemNumbers ds ↔ ∃ d ∈ ds, x ∈ d.numbers := by
  induction ds with
  | nil => simp [itemNumbers]
  | cons d ds ih => simp [itemNumbers, ih]

/-- An object nests as deep as the deepest of its entries. -/
theorem entryNesting_le {es : List (String × Document)} {k : Nat} :
    entryNesting es ≤ k ↔ ∀ e ∈ es, e.2.nesting ≤ k := by
  induction es with
  | nil => simp [entryNesting]
  | cons e es ih => simp [entryNesting, ih]

/-- The numbers of an object are those of its entries. -/
theorem mem_entryNumbers {es : List (String × Document)} {x : Number} :
    x ∈ entryNumbers es ↔ ∃ e ∈ es, x ∈ e.2.numbers := by
  induction es with
  | nil => simp [entryNumbers]
  | cons e es ih => simp [entryNumbers, ih]

/-- What is known of a document that is read at a given depth. -/
structure Document.Readable (depth : Nat) (d : Document) : Prop where
  nesting_le : d.nesting ≤ depth
  finite : ∀ x ∈ d.numbers, x.toFloat.isFinite = true

/-- A list is one deeper than its items. -/
theorem Document.Readable.list {depth : Nat} {ds : List Document} (h : ∀ d ∈ ds, d.Readable depth) :
    (Document.list ds).Readable (depth + 1) where
  nesting_le := Nat.succ_le_succ (itemNesting_le.2 fun d hd => (h d hd).nesting_le)
  finite x hx := by
    obtain ⟨d, hd, hx⟩ := mem_itemNumbers.1 hx
    exact (h d hd).finite x hx

/-- An object is one deeper than its entries. -/
theorem Document.Readable.object {depth : Nat} {es : List (String × Document)}
    (h : ∀ e ∈ es, e.2.Readable depth) : (Document.object es).Readable (depth + 1) where
  nesting_le := Nat.succ_le_succ (entryNesting_le.2 fun e he => (h e he).nesting_le)
  finite x hx := by
    obtain ⟨e, he, hx⟩ := mem_entryNumbers.1 hx
    exact (h e he).finite x hx

namespace Reader

variable {α β σ : Type}

/-- Whatever is read has the property. -/
def Yields (r : Reader α) (P : α → Prop) : Prop := ∀ cs a cs', r cs = .ok (a, cs') → P a

namespace Yields

variable {P : α → Prop} {Q : β → Prop}

theorem pure {a : α} (h : P a) : Yields (Pure.pure a) P := fun _ _ _ h' => by cases h'; exact h

theorem throw (e : ReadError) : Yields (MonadExcept.throw e) P := fun _ _ _ h => by cases h

/-- What is read first may be used to read what comes next. -/
theorem bind {r : Reader α} {f : α → Reader β} (hr : Yields r P) (hf : ∀ a, P a → Yields (f a) Q) :
    Yields (r >>= f) Q := by
  intro cs b cs'' h
  obtain ⟨a, cs', ha, hb⟩ := of_bind h
  exact hf a (hr cs a cs' ha) cs' b cs'' hb

/-- What is read last has the property, whatever is read before. -/
theorem after {r : Reader α} {f : α → Reader β} (hf : ∀ a, Yields (f a) Q) : Yields (r >>= f) Q :=
  bind (P := fun _ => True) (fun _ _ _ _ => trivial) fun a _ => hf a

/-- What every element keeps, all of them keep. -/
theorem items {item : σ → Reader σ} {P : σ → Prop} (hitem : ∀ s, P s → Yields (item s) P) (n : Nat) :
    ∀ (isFirst : Bool) (s : σ), P s → Yields (Reader.items item n isFirst s) P := by
  induction n with
  | zero => exact fun _ _ _ => throw _
  | succ n ih =>
    intro isFirst s hs
    refine after fun another => ?_
    split
    · exact (hitem s hs).bind fun s' hs' => ih false s' hs'
    · exact pure hs

/-- What every entry keeps, all of them keep. -/
theorem entries {entry : σ → String → Reader σ} {P : σ → Prop}
    (hentry : ∀ s name, P s → Yields (entry s name) P) (n : Nat) :
    ∀ (isFirst : Bool) (s : σ), P s → Yields (Reader.entries entry n isFirst s) P := by
  induction n with
  | zero => exact fun _ _ _ => throw _
  | succ n ih =>
    intro isFirst s hs
    refine after fun another => ?_
    split
    · exact after fun name => (hentry s name hs).bind fun s' hs' => ih false s' hs'
    · exact pure hs

end Yields

/-! ## Numbers -/

/-- The number is finite as a double. -/
abbrev FiniteNumber (x : Number) : Prop := x.toFloat.isFinite = true

/-- A number that would not be finite is refused. -/
theorem yields_real (isPositive : Bool) (significand : Nat) (exponent : Int) :
    Yields (real isPositive significand exponent) FiniteNumber := by
  unfold real
  split
  · rename_i x hx
    have hfinite := Double.isFinite_of_scaled? hx
    refine .pure ?_
    show Float.isFinite (if isPositive = true then x else -x) = true
    split
    · exact hfinite
    · exact Double.isFinite_neg hfinite
  · exact .throw _

/-- The largest integer that is read without an exponent is finite. -/
theorem finite_integer (isPositive : Bool) (significand : Nat) :
    FiniteNumber (integer isPositive significand) := by
  have hfinite := Double.isFinite_toFloat (UInt64.ofNat significand)
  unfold integer
  dsimp only
  split
  · exact hfinite
  split
  · exact Double.isFinite_neg hfinite
  · exact Double.isFinite_neg hfinite

/-- However many digits an exponent has, what is read is finite. -/
theorem yields_withExponent (isPositive : Bool) (significand : Nat) (places : Int) :
    Yields (withExponent isPositive significand places) FiniteNumber := by
  unfold withExponent
  refine .after fun hasMark => ?_
  split
  · exact .after fun e => yields_real _ _ _
  · exact yields_real _ _ _

/-- A fraction is finite, and so is what an exponent makes of it. -/
theorem yields_fraction (isPositive : Bool) (significand : Nat) (places : Int) :
    Yields (fraction isPositive significand places) FiniteNumber := by
  unfold fraction
  dsimp only
  refine .after fun gathered => .after fun follows => ?_
  split
  · exact .after fun _ => yields_withExponent _ _ _
  split
  · exact .after fun _ => .after fun _ => yields_withExponent _ _ _
  · exact yields_withExponent _ _ _

/-- An integer with too many digits is read with an exponent for those that are left out. -/
theorem yields_longInteger (isPositive : Bool) (significand : Nat) :
    Yields (longInteger isPositive significand) FiniteNumber := by
  unfold longInteger
  refine .after fun places => .after fun c? => ?_
  split
  · exact .after fun _ => yields_fraction _ _ _
  · exact yields_withExponent _ _ _

theorem yields_afterInteger (isPositive : Bool) (significand : Nat) :
    Yields (afterInteger isPositive significand) FiniteNumber := by
  unfold afterInteger
  refine .after fun c? => ?_
  split
  · exact .after fun _ => yields_fraction _ _ _
  · exact yields_withExponent _ _ _
  · exact yields_withExponent _ _ _
  · exact .pure (finite_integer _ _)

/-- A number without its sign is finite. -/
theorem yields_unsigned (isPositive : Bool) : Yields (unsigned isPositive) FiniteNumber := by
  unfold unsigned
  dsimp only
  refine .after fun first => ?_
  split
  · refine .after fun follows => ?_
    split
    · exact .after fun _ => yields_afterInteger _ _
    · exact yields_afterInteger _ _
  split
  · refine .after fun gathered => .after fun follows => ?_
    split
    · exact yields_longInteger _ _
    · exact yields_afterInteger _ _
  · exact .throw _

/-- Only finite numbers are read. -/
theorem yields_number : Yields number FiniteNumber := by
  unfold number
  refine .after fun c? => ?_
  split
  · exact .after fun _ => yields_unsigned false
  · exact yields_unsigned true

/-! ## Values -/

/-- A scalar nests nothing, and a number among them is finite. -/
theorem yields_scalar (c : Char) (depth : Nat) : Yields (scalar c) (Document.Readable depth) := by
  -- Null, truth values and texts hold no number.
  have hempty (d : Document) (hnesting : d.nesting = 0) (hnumbers : d.numbers = []) : d.Readable depth :=
    ⟨hnesting ▸ Nat.zero_le _, fun x hx => by rw [hnumbers] at hx; cases hx⟩
  unfold scalar
  split
  · exact .after fun _ => .pure (hempty _ rfl rfl)
  · exact .after fun _ => .pure (hempty _ rfl rfl)
  · exact .after fun _ => .pure (hempty _ rfl rfl)
  · exact .after fun _ => .pure (hempty _ rfl rfl)
  · split
    · refine yields_number.bind fun x hx => .pure ⟨Nat.zero_le _, fun y hy => ?_⟩
      obtain rfl := List.mem_singleton.1 hy
      exact hx
    · exact .throw _

/-- Whatever the text, a value is read at the depth it is asked for. -/
theorem yields_value (n depth : Nat) : Yields (value n depth) (Document.Readable depth) := by
  induction n generalizing depth with
  | zero => exact .throw _
  | succ n ih =>
    intro cs d cs' h
    obtain ⟨c, tail, -, ⟨-, depth, seen, cs₁, rfl, rfl, hitems⟩ |
      ⟨-, depth, seen, cs₁, rfl, rfl, hentries⟩ | hscalar⟩ := of_value h
    · have hstep (seen : List Document) (hseen : ∀ d ∈ seen, d.Readable depth) :
          Yields (itemReader n depth seen) fun seen => ∀ d ∈ seen, d.Readable depth :=
        (ih depth).bind fun d hd => .pure (List.forall_mem_cons.2 ⟨hd, hseen⟩)
      have hseen := Yields.items hstep n true [] (fun _ h => nomatch h) _ _ _ hitems
      exact .list fun d hd => hseen d (List.mem_reverse.1 hd)
    · have hstep (seen : List (String × Document)) (name : String)
          (hseen : ∀ e ∈ seen, e.2.Readable depth) :
          Yields (entryReader n depth seen name) fun seen => ∀ e ∈ seen, e.2.Readable depth :=
        .after fun _ => (ih depth).bind fun d hd => .pure (List.forall_mem_cons.2 ⟨hd, hseen⟩)
      have hseen := Yields.entries hstep n true [] (fun _ h => nomatch h) _ _ _ hentries
      exact .object fun e he => hseen e (List.mem_reverse.1 he)
    · exact yields_scalar c depth _ _ _ hscalar

/-- A document that is read within others has only the depth that is left. -/
theorem yields_document (nested : Nat) :
    Yields (document nested) (Document.Readable (nestingLimit - nested)) :=
  fun cs d cs' h => yields_value _ _ cs d cs' (of_document h)

theorem Yields.wrongType (P : α → Prop) : Yields Reader.wrongType P := by
  unfold Reader.wrongType
  dsimp only
  refine .after fun first => ?_
  split
  · exact .after fun _ => .after fun _ => .throw _
  · exact .after fun _ => .throw _

end Reader

end Dataflow.Json
