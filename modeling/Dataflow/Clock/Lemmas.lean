import Dataflow.Clock

/-!
# The clock as a queue

The timers of a well-formed clock, and every clock made by its operations is one, are in strict
firing order. Scheduling adds one timer and keeps the others, and what is popped is the least timer,
which is due.
-/

namespace Dataflow

variable {τ : Type}

namespace Timer

/-- A timer fires before another if its deadline is earlier, or the same and it was scheduled earlier. -/
@[simp] theorem before_iff {t u : Timer τ} :
    t.before u = true ↔ t.fireAt < u.fireAt ∨ t.fireAt = u.fireAt ∧ t.sequence < u.sequence := by
  simp [before]

/-- Firing order is transitive. -/
theorem before_trans {t u v : Timer τ} (h : t.before u = true) (h' : u.before v = true) :
    t.before v = true := by
  rw [before_iff] at *
  omega

/-- Of two timers scheduled at different moments one fires before the other. -/
theorem before_or_before {t u : Timer τ} (h : t.sequence ≠ u.sequence) :
    t.before u = true ∨ u.before t = true := by
  simp only [before_iff]
  omega

end Timer

namespace Clock

/-- The pending timers are in firing order and were scheduled at different moments of the past. -/
structure WellFormed (c : Clock τ) : Prop where
  ordered : c.pending.Pairwise fun t u => t.before u = true
  sequence_lt : ∀ t ∈ c.pending, t.sequence < c.scheduled

/-- Inserting adds the timer and keeps all others. -/
theorem insert_perm (t : Timer τ) (ts : List (Timer τ)) : (insert t ts).Perm (t :: ts) := by
  induction ts with
  | nil => exact .refl _
  | cons u ts ih =>
    unfold insert
    split
    · exact .refl _
    · exact (ih.cons u).trans (.swap t u ts)

/-- What is pending after inserting was inserted or pending before. -/
theorem mem_insert {t u : Timer τ} {ts : List (Timer τ)} : u ∈ insert t ts ↔ u = t ∨ u ∈ ts := by
  rw [(insert_perm t ts).mem_iff, List.mem_cons]

/-- A timer goes to its place among timers that were scheduled at other moments. -/
theorem pairwise_insert {t : Timer τ} {ts : List (Timer τ)}
    (h : ts.Pairwise fun t u => t.before u = true) (ht : ∀ u ∈ ts, u.sequence ≠ t.sequence) :
    (insert t ts).Pairwise fun t u => t.before u = true := by
  induction ts with
  | nil => exact List.pairwise_singleton _ _
  | cons u ts ih =>
    obtain ⟨hu, hts⟩ := List.pairwise_cons.1 h
    unfold insert
    split
    · rename_i htu
      refine List.pairwise_cons.2 ⟨fun v hv => ?_, h⟩
      rcases List.mem_cons.1 hv with rfl | hv
      · exact htu
      · exact Timer.before_trans htu (hu v hv)
    · rename_i htu
      have hut : u.before t = true :=
        (Timer.before_or_before (ht u (by simp))).resolve_right htu
      refine List.pairwise_cons.2 ⟨fun v hv => ?_, ih hts fun v hv => ht v (by simp [hv])⟩
      rcases mem_insert.1 hv with rfl | hv
      · exact hut
      · exact hu v hv

/-- Of timers in firing order the first one has the earliest deadline. -/
theorem le_of_head {t u : Timer τ} {ts : List (Timer τ)}
    (h : ts.Pairwise fun t u => t.before u = true) (ht : ts.head? = some t) (hu : u ∈ ts) :
    t.fireAt ≤ u.fireAt := by
  obtain ⟨rest, rfl⟩ := List.head?_eq_some_iff.1 ht
  rcases List.mem_cons.1 hu with rfl | hu
  · exact Nat.le_refl _
  · have hbefore := (List.pairwise_cons.1 h).1 u hu
    rw [Timer.before_iff] at hbefore
    omega

/-! ## What operations do -/

/-- Scheduling succeeds exactly for representable deadlines, and adds one timer. -/
theorem schedule?_eq_some_iff {c c' : Clock τ} {delay : Nat} {task : τ} :
    c.schedule? delay task = some c' ↔
      c.now + delay < Duration.limit ∧
        c' = { c with
          scheduled := c.scheduled + 1
          pending := insert ⟨c.now + delay, c.scheduled, task⟩ c.pending } := by
  unfold schedule? Duration.add?
  split
  · rename_i h
    simp [h, eq_comm]
  · rename_i h
    simp [h]

/-- What is popped is the first timer, and it is due. -/
theorem popDue_eq_some_iff {c c' : Clock τ} {limit : Nat} {task : τ} :
    c.popDue limit = (some task, c') ↔
      ∃ t rest, c.pending = t :: rest ∧ t.fireAt ≤ limit ∧ t.task = task ∧
        c' = { c with now := max c.now t.fireAt, pending := rest } := by
  unfold popDue
  split
  · rename_i t rest ht
    split
    · rename_i hle
      simp only [ht, Prod.mk.injEq, Option.some.injEq, List.cons.injEq]
      exact ⟨fun ⟨h, h'⟩ => ⟨t, rest, ⟨rfl, rfl⟩, hle, h, h'.symm⟩,
        fun ⟨_, _, ⟨ht, hr⟩, _, h, h'⟩ => by subst ht hr; exact ⟨h, h'.symm⟩⟩
    · rename_i hle
      simp only [ht, Prod.mk.injEq, reduceCtorEq, false_and, false_iff, List.cons.injEq]
      rintro ⟨_, _, ⟨rfl, rfl⟩, h, -⟩
      exact hle h
  · rename_i ht
    simp [ht]

/-- Nothing is popped exactly when no pending timer is due. -/
theorem popDue_eq_none_iff {c c' : Clock τ} (h : c.WellFormed) {limit : Nat} :
    c.popDue limit = (none, c') ↔ c' = c ∧ ∀ t ∈ c.pending, limit < t.fireAt := by
  unfold popDue
  split
  · rename_i t rest ht
    have hfirst : ∀ u ∈ c.pending, t.fireAt ≤ u.fireAt := fun u =>
      le_of_head h.ordered (congrArg List.head? ht)
    split
    · rename_i hle
      simp only [Prod.mk.injEq, reduceCtorEq, false_and, false_iff, not_and]
      intro _ hall
      have := hall t (by simp [ht])
      omega
    · rename_i hle
      simp only [Prod.mk.injEq, true_and]
      refine ⟨fun hc => ⟨hc.symm, fun u hu => ?_⟩, fun hc => hc.1.symm⟩
      have := hfirst u hu
      omega
  · rename_i ht
    simp [ht, eq_comm]

/-- Of two moves the later one counts. -/
theorem advanceTo_advanceTo (c : Clock τ) {t t' : Nat} (h : t ≤ t') :
    (c.advanceTo t).advanceTo t' = c.advanceTo t' := by
  have hmax : max (max c.now t) t' = max c.now t' := by omega
  unfold advanceTo
  rw [hmax]

/-- Time does not move back. -/
theorem advanceTo_of_le (c : Clock τ) {target : Nat} (h : target ≤ c.now) :
    c.advanceTo target = c := by
  have hmax : max c.now target = c.now := by omega
  unfold advanceTo
  rw [hmax]

/-! ## Well-formedness -/

/-- No timer is pending at first. -/
theorem WellFormed.initial : (initial : Clock τ).WellFormed :=
  ⟨List.Pairwise.nil, by simp [Clock.initial]⟩

/-- A timer is scheduled with a number that none has yet. -/
theorem WellFormed.schedule? {c c' : Clock τ} (h : c.WellFormed) {delay : Nat} {task : τ}
    (hc : c.schedule? delay task = some c') : c'.WellFormed := by
  obtain ⟨-, rfl⟩ := schedule?_eq_some_iff.1 hc
  refine ⟨pairwise_insert h.ordered fun u hu => Nat.ne_of_lt (h.sequence_lt u hu), fun u hu => ?_⟩
  rcases mem_insert.1 hu with rfl | hu
  · exact Nat.lt_succ_self _
  · exact Nat.lt_succ_of_lt (h.sequence_lt u hu)

/-- What is left when a timer is popped is still in order. -/
theorem WellFormed.popDue {c : Clock τ} (h : c.WellFormed) (limit : Nat) :
    (c.popDue limit).2.WellFormed := by
  unfold Clock.popDue
  split
  · rename_i t rest ht
    split
    · have := h.ordered
      rw [ht] at this
      exact ⟨(List.pairwise_cons.1 this).2, fun u hu => h.sequence_lt u (by simp [ht, hu])⟩
    · exact h
  · exact h

/-- Time that passes leaves the pending timers as they are. -/
theorem WellFormed.advanceTo {c : Clock τ} (h : c.WellFormed) (target : Nat) :
    (c.advanceTo target).WellFormed := ⟨h.ordered, h.sequence_lt⟩

/-- Nothing is pending when all timers are cleared. -/
theorem WellFormed.clear (c : Clock τ) : c.clear.WellFormed :=
  ⟨List.Pairwise.nil, by simp [Clock.clear]⟩

/-- What is left when the timers that are due are taken is still in order. -/
theorem WellFormed.takeDue {c : Clock τ} (h : c.WellFormed) : c.takeDue.2.WellFormed :=
  ⟨h.ordered.sublist (List.dropWhile_sublist _),
    fun t ht => h.sequence_lt t ((List.dropWhile_sublist _).subset ht)⟩

end Clock

end Dataflow
