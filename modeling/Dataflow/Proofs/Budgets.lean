import Dataflow.Proofs.Settling

/-!
# Budgets stop nothing but drives

A drive that is out of budget has done as many ticks as there were in its budget, all of them whole,
and something is left to do (`DriveEnds`). Nothing else is lost or begun, so another drive goes on
where it stopped: two drives, one after the other, come to what one drive comes to with both budgets
(`drive_of_exhausted`).

The time at the end of ticks is the last deadline fired (`Ticks.now_eq`), since deadlines are fired in
order and the time is moved only to deadlines that are fired next.
-/

namespace Dataflow

/-! ## Deadlines -/

namespace Clock

variable {τ : Type} {c : Clock τ}

/-- The deadlines of the timers that are due. -/
def dueTimes (c : Clock τ) : List Nat :=
  (c.pending.takeWhile fun t => t.fireAt ≤ c.now).map Timer.fireAt

/-- What is due has its deadline by now. -/
theorem le_now_of_mem_dueTimes {time : Nat} (h : time ∈ c.dueTimes) : time ≤ c.now := by
  obtain ⟨timer, htimer, rfl⟩ := List.mem_map.1 h
  exact of_decide_eq_true (List.all_eq_true.1 List.all_takeWhile timer htimer)

/-- When the timers that are due have been taken, the others are not due. -/
theorem WellFormed.le_of_mem_takeDue {timer : Timer τ} (h : c.WellFormed)
    (htimer : timer ∈ c.takeDue.2.pending) : c.now ≤ timer.fireAt := by
  obtain ⟨first, hfirst⟩ := Option.isSome_iff_exists.1
    (List.isSome_head?.2 (List.ne_nil_of_mem htimer))
  have hnotDue := List.head?_dropWhile_not (fun t : Timer τ => t.fireAt ≤ c.now) c.pending
  rw [show c.pending.dropWhile _ = c.takeDue.2.pending from rfl, hfirst] at hnotDue
  have hlate : c.now < first.fireAt := by simpa using hnotDue
  exact hlate.le.trans (le_of_head h.takeDue.ordered hfirst htimer)

/-- When the time has been moved to the first deadline, it is the last one that is due. -/
theorem WellFormed.last_dueTimes {first : Timer τ} (h : c.WellFormed)
    (hhead : c.pending.head? = some first) :
    ∃ last, (c.advanceTo first.fireAt).dueTimes.getLast? = some last ∧
      (c.advanceTo first.fireAt).now = max c.now last := by
  let c₁ := c.advanceTo first.fireAt
  obtain ⟨rest, hpending⟩ := List.head?_eq_some_iff.1 hhead
  have hdue : first.fireAt ≤ c₁.now := Nat.le_max_right ..
  have hnonempty : c₁.dueTimes ≠ [] := by
    show (c.pending.takeWhile fun t => t.fireAt ≤ c₁.now).map Timer.fireAt ≠ []
    rw [hpending, List.takeWhile_cons_of_pos (by simpa using hdue)]
    exact List.cons_ne_nil _ _
  have hmem := List.getLast_mem hnonempty
  refine ⟨c₁.dueTimes.getLast hnonempty, List.getLast?_eq_getLast_of_ne_nil hnonempty, ?_⟩
  have hle : c₁.dueTimes.getLast hnonempty ≤ max c.now first.fireAt := le_now_of_mem_dueTimes hmem
  -- The first timer has the earliest deadline, and the last due is no earlier than that.
  have hge : first.fireAt ≤ c₁.dueTimes.getLast hnonempty := by
    obtain ⟨timer, htimer, heq⟩ := List.mem_map.1 hmem
    exact heq ▸ le_of_head h.ordered hhead ((List.takeWhile_sublist _).mem htimer)
  show max c.now first.fireAt = _
  omega

end Clock

namespace Engine

variable {π κ : Type}

/-- The engine with another budget for its drives. -/
def budgeted (budget : Nat) (s : Engine π κ) : Engine π κ :=
  s.under { s.config with maxTicks := budget }

/-! ## Clocks on the way -/

/-- The time has come, and no timer is due before it. -/
structure NotBefore (time : Nat) (s : Engine π κ) : Prop where
  now : time ≤ s.clock.now
  pending : ∀ timer ∈ s.clock.pending, time ≤ timer.fireAt

section Steps

variable [Process π] {r : Reach} {s s' : Engine π κ} {time : Nat}

/-- No step makes a timer due before a time that has come: a deadline is set no earlier than now. -/
theorem Step.notBefore (h : Step r s s') (hs : s.NotBefore time) : s'.NotBefore time := by
  cases h with
  | scheduled _ hclock =>
    obtain ⟨-, rfl⟩ := Clock.schedule?_eq_some_iff.1 hclock
    refine ⟨hs.now, fun timer htimer => ?_⟩
    rcases Clock.mem_insert.1 htimer with rfl | htimer
    · exact hs.now.trans (Nat.le_add_right ..)
    · exact hs.pending timer htimer
  | moved =>
    exact ⟨hs.now, fun timer htimer => hs.pending timer ((List.dropWhile_sublist _).mem htimer)⟩
  | advanced time' => exact ⟨hs.now.trans (Nat.le_max_left ..), hs.pending⟩
  | _ => exact ⟨hs.now, hs.pending⟩

/-- Steps make no timer due before a time that has come. -/
theorem Steps.notBefore (h : Steps r s s') (hs : s.NotBefore time) : s'.NotBefore time := by
  induction h with
  | refl => exact hs
  | tail _ hstep ih => exact hstep.notBefore ih

/-- A step keeps the clock well-formed. -/
theorem Step.clock_wellFormed (h : Step r s s') (hs : s.clock.WellFormed) : s'.clock.WellFormed := by
  cases h with
  | scheduled _ hclock => exact hs.schedule? hclock
  | moved => exact hs.takeDue
  | advanced time => exact hs.advanceTo time
  | _ => exact hs

/-- Steps keep the clock well-formed. -/
theorem Steps.clock_wellFormed (h : Steps r s s') (hs : s.clock.WellFormed) :
    s'.clock.WellFormed := by
  induction h with
  | refl => exact hs
  | tail _ hstep ih => exact hstep.clock_wellFormed ih

end Steps

/-- If the time is moved to make something runnable, then to a deadline that is due now. -/
theorem now_of_makeRunnable {horizon : Horizon} {s s₁ : Engine π κ} (hclock : s.clock.WellFormed)
    (h : makeRunnable horizon s = .ok true s₁) :
    s₁.clock.now = max s.clock.now (s₁.clock.dueTimes.getLast?.getD 0) := by
  cases makesRunnable_of_eq h with
  | already =>
    cases hlast : s.clock.dueTimes.getLast? with
    | none => exact (Nat.max_zero _).symm
    | some time =>
      exact (Nat.max_eq_left (Clock.le_now_of_mem_dueTimes (List.mem_of_getLast? hlast))).symm
  | moved timer hidle hhead hallows =>
    obtain ⟨last, hlast, hnow⟩ := hclock.last_dueTimes hhead
    rw [hlast]
    exact hnow

variable [Process π] [Condition κ] {horizon : Horizon} {s s₁ s' : Engine π κ} {n budget : Nat}
  {fired : List Nat}

/-- After a tick the timers that were due are gone, and no other is. -/
theorem notBefore_tick {count : Nat} (hclock : s.clock.WellFormed) (h : tick s = .ok count s') :
    s'.NotBefore s.clock.now := by
  let s₀ : Engine π κ := { s with clock := s.clock.takeDue.2, queue := #[] }
  let batch := (s.queue ++ s.clock.takeDue.1).toList
  have hs₀ : s₀.NotBefore s.clock.now :=
    ⟨Nat.le_refl _, fun _ htimer => hclock.le_of_mem_takeDue htimer⟩
  have hleads : Leads .everything s₀ (runBatch batch s₀) :=
    leads_runBatch Reach.drives_everything (Reach.closed_everything s₀) fun _ _ => trivial
  rw [tick_eq] at h
  cases hrun : runBatch batch s₀ with
  | error stop s₁ =>
    rw [bind_of_error hrun] at h
    cases h
  | ok _ s₁ =>
    rw [bind_of_ok hrun] at h
    cases h
    rw [hrun] at hleads
    exact hleads.1.notBefore hs₀

/-! ## Ticks in a row -/

/-- The second engine is what so many ticks make of the first one, none of which fails. Each tick
finds something runnable, be it that the time was moved for it. The deadlines are those of the timers
that were fired, in order. -/
inductive Ticks (horizon : Horizon) : Nat → List Nat → Engine π κ → Engine π κ → Prop
  | none (s : Engine π κ) : Ticks horizon 0 [] s s
  | more {n count : Nat} {fired : List Nat} {s s₁ s₂ s' : Engine π κ}
    (hrunnable : makeRunnable horizon s = .ok true s₁) (htick : tick s₁ = .ok count s₂)
    (hrest : Ticks horizon n fired s₂ s') : Ticks horizon (n + 1) (s₁.clock.dueTimes ++ fired) s s'

omit [Process π] [Condition κ] in
/-- Moving the time to a deadline keeps the clock well-formed. -/
theorem clock_wellFormed_makeRunnable {runnable : Bool} (h : makeRunnable horizon s = .ok runnable s₁)
    (hclock : s.clock.WellFormed) : s₁.clock.WellFormed := by
  rcases makeRunnable_engine h with rfl | ⟨time, rfl⟩
  · exact hclock
  · exact hclock.advanceTo time

namespace Ticks

/-- Ticks keep the configuration. -/
theorem config (h : Ticks horizon n fired s s') : s'.config = s.config := by
  induction h with
  | none => rfl
  | more hrunnable htick _ ih =>
    exact ih.trans ((tick_eq_ok htick).1.trans (SameWiring.of_makeRunnable hrunnable).config)

/-- Ticks fire nothing that was due before. -/
theorem le_of_mem_fired {time : Nat} (h : Ticks horizon n fired s s') (hs : s.NotBefore time) :
    ∀ deadline ∈ fired, time ≤ deadline := by
  induction h with
  | none => exact List.forall_mem_nil _
  | @more n count fired s s₁ s₂ s' hrunnable htick _ ih =>
    have hs₁ : s₁.NotBefore time := by
      rcases makeRunnable_engine hrunnable with rfl | ⟨time', rfl⟩
      · exact hs
      · exact ⟨hs.now.trans (Nat.le_max_left ..), hs.pending⟩
    refine List.forall_mem_append.2
      ⟨fun deadline hdeadline => ?_, ih ((steps_of_tick htick).notBefore hs₁)⟩
    obtain ⟨timer, htimer, rfl⟩ := List.mem_map.1 hdeadline
    exact hs₁.pending timer ((List.takeWhile_sublist _).mem htimer)

/-- **The time after ticks is the last deadline fired**, or the time before, if that is later. -/
theorem now_eq (h : Ticks horizon n fired s s') (hclock : s.clock.WellFormed) :
    s'.clock.now = max s.clock.now (fired.getLast?.getD 0) := by
  induction h with
  | none => exact (Nat.max_zero _).symm
  | @more n count fired s s₁ s₂ s' hrunnable htick hrest ih =>
    have hclock₁ := clock_wellFormed_makeRunnable hrunnable hclock
    have hnow₁ := now_of_makeRunnable hclock hrunnable
    have hnow₂ : s₂.clock.now = s₁.clock.now := (tick_eq_ok htick).2
    have hnow := ih ((steps_of_tick htick).clock_wellFormed hclock₁)
    rw [List.getLast?_append]
    cases hlast : fired.getLast? with
    | none =>
      rw [hlast] at hnow
      rw [hnow, hnow₂]
      exact (Nat.max_zero _).trans hnow₁
    | some last =>
      rw [hlast] at hnow
      -- What is fired later was not due at this tick, so its deadline is no earlier than the time then.
      have hlater := hrest.le_of_mem_fired (notBefore_tick hclock₁ htick) last
        (List.mem_of_getLast? hlast)
      show s'.clock.now = max s.clock.now last
      have hnow' : s'.clock.now = max s₂.clock.now last := hnow
      omega

/-- Ticks are paid from the budget of a drive, one by one. -/
theorem drive_eq (h : Ticks horizon n fired s s') (budget : Nat) :
    drive horizon (n + budget) s = drive horizon budget s' := by
  induction h with
  | none => rw [Nat.zero_add]
  | @more n count fired s s₁ s₂ s' hrunnable htick _ ih =>
    rw [Nat.add_right_comm, drive_succ_of_runnable hrunnable, bind_of_ok htick]
    exact ih

end Ticks

/-! ## How drives end -/

/-- What a drive comes to: it rests when nothing is runnable, it is out of budget, or a tick fails. -/
inductive DriveEnds (horizon : Horizon) (budget : Nat) (s : Engine π κ) :
    EStateM.Result Stop (Engine π κ) Nat → Prop
  | rests {n : Nat} {fired : List Nat} {s' : Engine π κ} (hticks : Ticks horizon n fired s s')
    (hbudget : n ≤ budget) (hidle : makeRunnable horizon s' = .ok false s') :
    DriveEnds horizon budget s (.ok (budget - n) s')
  | exhausted {fired : List Nat} {s₁ s' : Engine π κ} (hticks : Ticks horizon budget fired s s₁)
    (hrunnable : makeRunnable horizon s₁ = .ok true s') :
    DriveEnds horizon budget s (.error (.failed (.tickBudgetExhausted s'.config.maxTicks)) s')
  | fails {n : Nat} {fired : List Nat} {s₁ s₂ s' : Engine π κ} {stop : Stop}
    (hticks : Ticks horizon n fired s s₁) (hbudget : n < budget)
    (hrunnable : makeRunnable horizon s₁ = .ok true s₂) (htick : tick s₂ = .error stop s') :
    DriveEnds horizon budget s (.error stop s')

/-- A drive ends in one of these ways, whatever its budget. -/
theorem drive_ends (horizon : Horizon) (budget : Nat) (s : Engine π κ) :
    DriveEnds horizon budget s (drive horizon budget s) := by
  induction budget generalizing s with
  | zero =>
    rcases makeRunnable_cases horizon s with ⟨s₁, hrunnable⟩ | hidle
    · rw [drive_zero_of_runnable hrunnable]
      exact .exhausted (.none s) hrunnable
    · rw [drive_of_idle hidle]
      exact .rests (.none s) (Nat.le_refl 0) hidle
  | succ budget ih =>
    rcases makeRunnable_cases horizon s with ⟨s₁, hrunnable⟩ | hidle
    · rw [drive_succ_of_runnable hrunnable]
      cases htick : tick s₁ with
      | error stop s₂ =>
        rw [bind_of_error htick]
        exact .fails (.none s) (Nat.succ_pos budget) hrunnable htick
      | ok count s₂ =>
        rw [bind_of_ok htick]
        generalize hdrive : drive horizon budget s₂ = result
        have hends := ih s₂
        rw [hdrive] at hends
        -- One more tick in front of those that the rest of the budget pays for.
        cases hends with
        | @rests n fired s' hticks hbudget hidle =>
          rw [show budget - n = budget + 1 - (n + 1) by omega]
          exact .rests (.more hrunnable htick hticks) (Nat.succ_le_succ hbudget) hidle
        | exhausted hticks hrunnable' => exact .exhausted (.more hrunnable htick hticks) hrunnable'
        | fails hticks hbudget hrunnable' htick' =>
          exact .fails (.more hrunnable htick hticks) (Nat.succ_lt_succ hbudget) hrunnable' htick'
    · rw [drive_of_idle hidle]
      exact .rests (.none s) (Nat.zero_le _) hidle

/-- Where a drive is out of budget, it goes on with whatever more it is given. -/
theorem drive_of_exhausted {limit : Nat}
    (h : drive horizon budget s = .error (.failed (.tickBudgetExhausted limit)) s') (more : Nat) :
    drive horizon (budget + more) s = drive horizon more s' := by
  have hends := drive_ends horizon budget s
  rw [h] at hends
  cases hends with
  | exhausted hticks hrunnable =>
    have hready : makeRunnable horizon s' = .ok true s' :=
      (MakesRunnable.already (isRunnable_of_makeRunnable hrunnable)).eq
    rw [hticks.drive_eq]
    exact drive_of_eq (hrunnable.trans hready.symm) more
  | fails _ _ _ htick => exact absurd rfl (tick_ne_exhausted htick limit)

/-! ## Settling -/

/-- What a budget does to settling. -/
structure BudgetStops (budget : Nat) (s : Engine π κ) : Prop where
  /-- Settling is over after finitely many jobs. It has succeeded or failed, unless a time was asked for
  that is not representable. -/
  ends : Ends settle [.drive .unbounded budget] (s.budgeted budget)
  /-- If it succeeds, nothing is left to do, and the time is that of the last deadline fired. -/
  rests : ∀ s', settle (s.budgeted budget) = .ok () s' →
    s'.queue = #[] ∧ s'.clock.pending = [] ∧ ∃ n fired, n ≤ budget ∧
      Ticks .unbounded n fired (s.budgeted budget) s' ∧
      s'.clock.now = max s.clock.now (fired.getLast?.getD 0)
  /-- If the budget is exhausted, then by ticks that succeeded, and something is runnable still. -/
  exhausts : ∀ limit s',
    settle (s.budgeted budget) = .error (.failed (.tickBudgetExhausted limit)) s' →
      limit = budget ∧ s'.isRunnable = true ∧
        ∃ fired s₁, Ticks .unbounded budget fired (s.budgeted budget) s₁ ∧
          makeRunnable .unbounded s₁ = .ok true s'
  /-- If it stops for another reason, a tick within the budget did. -/
  fails : ∀ stop s', settle (s.budgeted budget) = .error stop s' →
    (∀ limit, stop ≠ .failed (.tickBudgetExhausted limit)) →
      ∃ n fired s₁ s₂, n < budget ∧ Ticks .unbounded n fired (s.budgeted budget) s₁ ∧
        makeRunnable .unbounded s₁ = .ok true s₂ ∧ tick s₂ = .error stop s'
  /-- If the budget is exhausted, settling with another one comes to what settling with both at once
  comes to, but for the budget that is configured, which a failure may name. -/
  resumes : ∀ limit s',
    settle (s.budgeted budget) = .error (.failed (.tickBudgetExhausted limit)) s' →
      ∀ more, settle (s'.budgeted more) =
        relimited { s.config with maxTicks := more } (settle (s.budgeted (budget + more)))

/-- Settling is a drive, of which the budget that is left is forgotten. -/
theorem settle_budgeted (budget : Nat) (s : Engine π κ) :
    settle (s.budgeted budget) =
      (drive .unbounded budget >>= fun _ => pure () : Act π κ Unit) (s.budgeted budget) :=
  settle_eq _

/-- If settling succeeds, so does the drive. -/
theorem drive_of_settle_ok (h : settle (s.budgeted budget) = .ok () s') :
    ∃ left, drive .unbounded budget (s.budgeted budget) = .ok left s' := by
  rw [settle_budgeted] at h
  cases hdrive : drive .unbounded budget (s.budgeted budget) with
  | ok left s₁ =>
    rw [bind_of_ok hdrive] at h
    cases h
    exact ⟨left, rfl⟩
  | error stop s₁ =>
    rw [bind_of_error hdrive] at h
    cases h

/-- If settling fails, so does the drive, and for the same reason. -/
theorem drive_of_settle_error {stop : Stop} (h : settle (s.budgeted budget) = .error stop s') :
    drive .unbounded budget (s.budgeted budget) = .error stop s' := by
  rw [settle_budgeted] at h
  cases hdrive : drive .unbounded budget (s.budgeted budget) with
  | ok left s₁ =>
    rw [bind_of_ok hdrive] at h
    cases h
  | error stop₁ s₁ =>
    rw [bind_of_error hdrive] at h
    cases h
    rfl

/-- An exhausted budget loses nothing: the rest of the ticks can be paid from another one. -/
theorem settle_resumes {limit : Nat}
    (h : settle (s.budgeted budget) = .error (.failed (.tickBudgetExhausted limit)) s') (more : Nat) :
    settle (s'.budgeted more) =
      relimited { s.config with maxTicks := more } (settle (s.budgeted (budget + more))) := by
  let first := s.budgeted budget
  let whole : Config := { s.config with maxTicks := budget + more }
  let second : Config := { s.config with maxTicks := more }
  have hdrive : drive .unbounded budget first = _ := drive_of_settle_error h
  have hconfig : s'.config = first.config := by
    have hleads := leads_drive Reach.drives_everything .unbounded budget (Reach.closed_everything first)
    rw [hdrive] at hleads
    exact hleads.1.sameWiring.config
  have hbudgeted : s'.budgeted more = (s'.under whole).under second := by
    unfold budgeted
    rw [hconfig]
    rfl
  -- The first drive, with the budget of the whole one in its configuration.
  have hfirst : ∀ stop?, whole.Suits first.config stop? := Config.suits_of_eq rfl rfl
  have hspent := drive_under (hfirst (stopOf? (drive .unbounded budget first)))
  rw [hdrive] at hspent
  have hwhole : drive .unbounded (budget + more) (s.budgeted (budget + more)) =
      drive .unbounded more (s'.under whole) := drive_of_exhausted hspent more
  have hsecond : ∀ stop?, second.Suits (s'.under whole).config stop? := Config.suits_of_eq rfl rfl
  have hrest := drive_under (hsecond (stopOf? (drive .unbounded more (s'.under whole))))
  rw [← hwhole, ← hbudgeted] at hrest
  rw [settle_budgeted, settle_budgeted]
  exact relimited_map (fun _ => ()) hrest

/-- Each part of what a budget does to settling is read off how its drive ends. -/
theorem Grounds.budgetStops {rank : SlotId → ℕ} (h : s.Grounds rank) (hclock : s.clock.WellFormed)
    (budget : Nat) : s.BudgetStops budget := by
  have hends := drive_ends .unbounded budget (s.budgeted budget)
  refine ⟨?_, fun s' hsettle => ?_, fun limit s' hsettle => ?_, fun stop s' hsettle hstop => ?_,
    fun limit s' hsettle => settle_resumes hsettle⟩
  · have hgrounds : (s.budgeted budget).Grounds rank := ⟨h.lt_limit, h.lt_of_relays⟩
    exact hgrounds.ends_of_comes (List.forall_mem_singleton.2 trivial) (comes_settle _)
  · obtain ⟨left, hdrive⟩ := drive_of_settle_ok hsettle
    obtain ⟨hqueue, hpending⟩ := drive_unbounded_eq_ok hdrive
    rw [hdrive] at hends
    cases hends with
    | @rests n fired _ hticks hbudget _ =>
      exact ⟨hqueue, hpending, n, fired, hbudget, hticks, hticks.now_eq hclock⟩
  · rw [drive_of_settle_error hsettle] at hends
    cases hends with
    | exhausted hticks hrunnable =>
      have hconfig : s'.config = (s.budgeted budget).config :=
        (SameWiring.of_makeRunnable hrunnable).config.trans hticks.config
      exact ⟨congrArg Config.maxTicks hconfig, isRunnable_of_makeRunnable hrunnable, _, _, hticks,
        hrunnable⟩
    | fails _ _ _ htick => exact absurd rfl (tick_ne_exhausted htick limit)
  · rw [drive_of_settle_error hsettle] at hends
    cases hends with
    | exhausted => exact absurd rfl (hstop _)
    | fails hticks hbudget hrunnable htick => exact ⟨_, _, _, _, hbudget, hticks, hrunnable, htick⟩

end Engine

namespace Graph

variable {π κ : Type} [Process π] [Condition κ] {registry : Registry π κ} {config : Config}
  {spec : SpecNode} {g : Graph π κ}

/-- The clock of a graph is well-formed in every reachable state. -/
theorem clock_wellFormed_operateAll (hbuild : build registry config spec = .ok g)
    (ops : List Operation) : (g.operateAll ops).2.engine.clock.WellFormed := by
  refine invariant_of_build (P := fun s => s.clock.WellFormed) hbuild
    (fun _ _ _ _ => Clock.WellFormed.initial) (fun hmove hclock => ?_) ops
  cases hmove with
  | steps h => exact h.clock_wellFormed hclock
  | _ => exact hclock

end Graph

namespace Engine

/-- **A budget stops settling and does it no harm.** In an engine that passes outputs on in no circle,
whatever else is wired in circles, settling ends with any budget, after no more ticks than there are in
it; and where the budget is exhausted, it goes on as if it had not been stopped. A built graph is such an
engine in every reachable state. -/
theorem budget_stops_settling {π κ : Type} [Process π] [Condition κ] :
    (∀ s : Engine π κ, s.arena.WellFormed → s.clock.WellFormed → s.Acyclic →
      ∀ budget, s.BudgetStops budget) ∧
      ∀ (registry : Registry π κ) (config : Config) (spec : SpecNode) (g : Graph π κ),
        Graph.build registry config spec = .ok g →
          ∀ ops budget, (g.operateAll ops).2.engine.BudgetStops budget := by
  have hstops : ∀ s : Engine π κ, s.arena.WellFormed → s.clock.WellFormed → s.Acyclic →
      ∀ budget, s.BudgetStops budget := by
    intro s hwf hclock hacyclic
    obtain ⟨rank, hrank⟩ := hacyclic.exists_rank hwf
    exact hrank.budgetStops hclock
  refine ⟨hstops, fun registry config spec g hbuild ops => ?_⟩
  exact hstops _ (Graph.wellFormed_operateAll hbuild ops) (Graph.clock_wellFormed_operateAll hbuild ops)
    (Graph.acyclic_operateAll hbuild ops)

end Engine

/-- A component that gives what it hears to another one, which broadcasts it again after an echo. -/
def SpecNode.echoed : SpecNode :=
  ⟨"component",
    [("consumers", .nodes
      [⟨"component",
        [("consumers", .nodes [⟨"broadcast", [("key", .literal (.text "again"))]⟩]),
         ("producers", .nodes [⟨"echo", []⟩])]⟩]),
     ("producers", .nodes
      [⟨"listener", [("key", .literal (.text "again"))]⟩,
       ⟨"value", [("value", .literal .unit)]⟩])]⟩

namespace Engine

/-- The budget that something done is out of. -/
def exhausted? {π κ α : Type} : EStateM.Result Stop (Engine π κ) α → Option Nat
  | .error (.failed (.tickBudgetExhausted limit)) _ => some limit
  | _ => none

/-- The budget is told exactly by a failure for want of it. -/
theorem exhausted?_eq_some_iff {π κ α : Type} {result : EStateM.Result Stop (Engine π κ) α}
    {limit : Nat} :
    exhausted? result = some limit ↔ ∃ s, result = .error (.failed (.tickBudgetExhausted limit)) s := by
  constructor
  · intro h
    unfold exhausted? at h
    split at h
    · cases h
      exact ⟨_, rfl⟩
    · cases h
  · rintro ⟨s, rfl⟩
    rfl

/-- What is echoed again and again is echoed as long as the budget allows: one echo takes two ticks, and
the third tick is at the second deadline. -/
theorem budget_stops_settling_of_echoes :
    ∃ g, Graph.build Registry.echo {} SpecNode.echoed = .ok g ∧ g.engine.BudgetStops 3 ∧
      ∃ s', settle (g.engine.budgeted 3) = .error (.failed (.tickBudgetExhausted 3)) s' ∧
        s'.clock.now = 10 := by
  have hrun : (Graph.build Registry.echo {} SpecNode.echoed).toOption.map (fun g =>
      let result := settle (g.engine.budgeted 3)
      (exhausted? result, (Moment.ended settle (g.engine.budgeted 3)).engine.clock.now)) =
        some (some 3, 10) := by decide +kernel
  cases h : Graph.build Registry.echo {} SpecNode.echoed with
  | error stop =>
    rw [h] at hrun
    cases hrun
  | ok g =>
    rw [h] at hrun
    obtain ⟨hlimit, hnow⟩ := Prod.mk.inj (Option.some.inj hrun)
    obtain ⟨s', hsettle⟩ := exhausted?_eq_some_iff.1 hlimit
    have hstops := budget_stops_settling.1 g.engine (Graph.wellFormed_operateAll h [])
      (Graph.clock_wellFormed_operateAll h []) (Graph.acyclic_operateAll h []) 3
    rw [Moment.ended, hsettle] at hnow
    exact ⟨g, rfl, hstops, s', hsettle, hnow⟩

end Engine

end Dataflow
