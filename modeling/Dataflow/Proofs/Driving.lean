import Dataflow.Proofs.Conduct

/-!
# Drives, unfolded

A drive looks for something runnable, moving the time if need be, and either ticks and goes on or is
over. These equations are all that is used of the definitions of drives.
-/

namespace Dataflow.Engine

variable {π κ : Type} {s s₁ : Engine π κ} {α β : Type} {horizon : Horizon}

/-- Acts that come to the same go on to the same. -/
theorem bind_of_eq {x y : Act π κ α} (h : x s = y s₁) (f : α → Act π κ β) :
    (x >>= f) s = (y >>= f) s₁ := by
  show EStateM.bind x f s = EStateM.bind y f s₁
  rw [EStateM.bind, EStateM.bind, h]

/-- Nothing is runnable when nothing is queued and the first timer is not due. -/
theorem isRunnable_eq_false_iff {s : Engine π κ} :
    s.isRunnable = false ↔
      s.queue = #[] ∧ ∀ timer, s.clock.pending.head? = some timer → s.clock.now < timer.fireAt := by
  unfold isRunnable Clock.nextDeadline?
  cases s.clock.pending.head? with
  | none => simp
  | some timer => simp

/-- What making something runnable comes to: something is, or the time is moved to the first
deadline, or the first deadline is beyond the horizon. -/
inductive MakesRunnable (horizon : Horizon) (s : Engine π κ) : Bool → Engine π κ → Prop
  | already (h : s.isRunnable = true) : MakesRunnable horizon s true s
  | moved (timer : Timer Task) (hidle : s.isRunnable = false)
    (hhead : s.clock.pending.head? = some timer) (hallows : horizon.allows timer.fireAt = true) :
    MakesRunnable horizon s true { s with clock := s.clock.advanceTo timer.fireAt }
  | idle (hidle : s.isRunnable = false)
    (hbeyond : ∀ timer, s.clock.pending.head? = some timer → horizon.allows timer.fireAt = false) :
    MakesRunnable horizon s false s

/-- To make something runnable is one of three things. -/
theorem makesRunnable_of_eq {runnable : Bool} {s' : Engine π κ}
    (h : makeRunnable horizon s = .ok runnable s') : MakesRunnable horizon s runnable s' := by
  rw [makeRunnable_eq] at h
  split at h
  · cases h
    exact .already ‹_›
  · have hidle : s.isRunnable = false := Bool.eq_false_iff.2 ‹_›
    unfold Clock.nextDeadline? at h
    cases hhead : s.clock.pending.head? with
    | none =>
      rw [hhead] at h
      cases h
      exact .idle hidle fun timer htimer => by rw [hhead] at htimer; cases htimer
    | some timer =>
      rw [hhead] at h
      dsimp only [Option.map_some] at h
      split at h <;> cases h
      · exact .moved timer hidle hhead ‹_›
      · refine .idle hidle fun other hother => ?_
        rw [← Option.some.inj (hhead.symm.trans hother)]
        exact Bool.eq_false_iff.2 ‹_›

/-- Each of the three things is what making runnable comes to. -/
theorem MakesRunnable.eq {runnable : Bool} {s' : Engine π κ} (h : MakesRunnable horizon s runnable s') :
    makeRunnable horizon s = .ok runnable s' := by
  rw [makeRunnable_eq]
  unfold Clock.nextDeadline?
  cases h with
  | already h => rw [if_pos h]
  | moved timer hidle hhead hallows =>
    rw [if_neg (Bool.eq_false_iff.1 hidle), hhead]
    exact if_pos hallows
  | idle hidle hbeyond =>
    rw [if_neg (Bool.eq_false_iff.1 hidle)]
    cases hhead : s.clock.pending.head? with
    | none => rfl
    | some timer => exact if_neg (Bool.eq_false_iff.1 (hbeyond timer hhead))

/-- Looking for something runnable never fails, and leaves the engine as it is unless it finds something. -/
theorem makeRunnable_cases (horizon : Horizon) (s : Engine π κ) :
    (∃ s', makeRunnable horizon s = .ok true s') ∨ makeRunnable horizon s = .ok false s := by
  rw [makeRunnable_eq]
  -- Something is runnable, or a deadline is within the horizon, or neither.
  split
  · exact .inl ⟨s, rfl⟩
  · split
    · split
      · exact .inl ⟨_, rfl⟩
      · exact .inr rfl
    · exact .inr rfl

/-- When nothing is found, nothing is runnable now and the horizon allows no deadline. -/
theorem idle_of_eq {s' : Engine π κ} (h : makeRunnable horizon s = .ok false s') :
    s.isRunnable = false ∧
      ∀ timer, s.clock.pending.head? = some timer → horizon.allows timer.fireAt = false := by
  cases makesRunnable_of_eq h with
  | idle hidle hbeyond => exact ⟨hidle, hbeyond⟩

/-- When the time is moved to the first deadline, something is runnable. -/
theorem isRunnable_advanceTo {timer : Timer Task} (hhead : s.clock.pending.head? = some timer) :
    isRunnable { s with clock := s.clock.advanceTo timer.fireAt } = true := by
  refine Bool.of_not_eq_false fun hidle => ?_
  have hlate := (isRunnable_eq_false_iff.1 hidle).2 timer hhead
  exact absurd (Nat.le_max_right s.clock.now timer.fireAt) (Nat.not_le.2 hlate)

/-- What is made runnable is. -/
theorem isRunnable_of_makeRunnable (h : makeRunnable horizon s = .ok true s₁) :
    s₁.isRunnable = true := by
  cases makesRunnable_of_eq h with
  | already hready => exact hready
  | moved timer _ hhead => exact isRunnable_advanceTo hhead

/-- A tick has a task to run if anything is runnable. -/
theorem batch_ne_nil (h : s.isRunnable = true) : (s.queue ++ s.clock.takeDue.1).toList ≠ [] := by
  intro hempty
  rw [Array.toList_appendList] at hempty
  obtain ⟨hqueue, hdue⟩ := List.append_eq_nil_iff.1 hempty
  refine absurd h (Bool.eq_false_iff.1 (isRunnable_eq_false_iff.2 ⟨Array.toList_eq_nil_iff.1 hqueue,
    fun timer hhead => Nat.lt_of_not_le fun hdueNow => ?_⟩))
  obtain ⟨rest, hpending⟩ := List.head?_eq_some_iff.1 hhead
  rw [Clock.takeDue, hpending, List.takeWhile_cons_of_pos (by simpa using hdueNow)] at hdue
  cases hdue

/-- Making something runnable leaves the engine or moves its time. -/
theorem makeRunnable_engine {runnable : Bool} (h : makeRunnable horizon s = .ok runnable s₁) :
    s₁ = s ∨ ∃ time, s₁ = { s with clock := s.clock.advanceTo time } := by
  cases makesRunnable_of_eq h with
  | already => exact .inl rfl
  | moved timer => exact .inr ⟨timer.fireAt, rfl⟩
  | idle => exact .inl rfl

/-- What was discarded makes no difference to what comes after it. -/
theorem discard_bind (x : Act π κ α) (f : Act π κ β) :
    (discard x >>= fun _ => f) s = (x >>= fun _ => f) s := by
  cases h : x s with
  | ok a s₂ =>
    rw [bind_of_ok h]
    exact bind_of_ok (bind_of_ok h)
  | error stop s₂ =>
    rw [bind_of_error h]
    exact bind_of_error (bind_of_error h)

variable [Process π] [Condition κ] {budget : Nat}

/-- A drive that finds nothing to run is over, with all of its budget left. -/
theorem drive_of_idle (h : makeRunnable horizon s = .ok false s) :
    drive horizon budget s = .ok budget s := by
  cases budget <;> exact bind_of_ok h

/-- A drive depends on an engine only through what can be made runnable. -/
theorem drive_of_eq (h : makeRunnable horizon s₁ = makeRunnable horizon s) (budget : Nat) :
    drive horizon budget s₁ = drive horizon budget s := by
  cases budget <;> exact bind_of_eq h _

/-- A drive that finds something to run without a budget is cut off, whatever the budget was. -/
theorem drive_zero_of_runnable (h : makeRunnable horizon s = .ok true s₁) :
    drive horizon 0 s = .error (.failed (.tickBudgetExhausted s₁.config.maxTicks)) s₁ := bind_of_ok h

/-- A drive that finds something to run spends a tick on it and goes on. -/
theorem drive_succ_of_runnable (h : makeRunnable horizon s = .ok true s₁) :
    drive horizon (budget + 1) s = (tick >>= fun _ => drive horizon budget : Act π κ Nat) s₁ := by
  have hdrive : drive horizon (budget + 1) s =
      (discard tick >>= fun _ => drive horizon budget : Act π κ Nat) s₁ := bind_of_ok h
  rw [hdrive, discard_bind]

/-- A whole drive has the configured budget, and tells how much of it was spent. -/
theorem driveAll_eq (horizon : Horizon) (s : Engine π κ) :
    driveAll horizon s = (drive horizon s.config.maxTicks >>= fun left =>
      pure (s.config.maxTicks - left) : Act π κ Nat) s := get_bind _

/-- To advance is to drive up to the target and then to move the time there. -/
theorem advanceBy_eq (span : Nat) (s : Engine π κ) :
    advanceBy span s =
      match Duration.add? s.clock.now span with
      | none => .error .timeOverflow s
      | some target => (drive (.upTo target) s.config.maxTicks >>= fun _ =>
          modify fun s => { s with clock := s.clock.advanceTo target } : Act π κ Unit) s := by
  unfold advanceBy
  rw [get_bind]
  cases Duration.add? s.clock.now span with
  | none => rfl
  | some target =>
    dsimp only
    rw [discard_bind, bind_of_eq (driveAll_eq (.upTo target) s), bind_assoc]
    rfl

end Dataflow.Engine
