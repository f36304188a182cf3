import Dataflow.Proofs.Advancing
import Dataflow.Proofs.Tracing

/-!
# Driving by the wall clock

An engine can be settled at once, or in rounds: run what is runnable, wait for the next timer, let
that much time pass, and start over until no timer is left. Settling jumps from deadline to deadline
and pays for every tick from one budget. A round has two drives, each with a budget of its own, and
asks for a span of time instead of a deadline.

Both do the same ticks at the same times. Settling falls into pieces that end where the time is moved
(`drive_cut`), and every piece is the second drive of one round and the first drive of the next
(`rounds_of_runnable`). So the rounds come to an end because each piece of settling is paid from what
the pieces before it have left (`exists_rounds`).
-/

namespace Dataflow.Engine

variable {π κ : Type} {s s₁ s' : Engine π κ} {budget time : Nat}

/-! ## Points in time -/

/-- All deadlines are representable. -/
def Representable (s : Engine π κ) : Prop := ∀ timer ∈ s.clock.pending, timer.fireAt < Duration.limit

/-- Within no horizon is anything runnable that is not so already. -/
theorem makeRunnable_now (h : makeRunnable .now s = .ok true s₁) : s₁ = s := by
  cases makesRunnable_of_eq h with
  | already => rfl
  | moved _ _ _ hallows => cases hallows

variable [Process π]

theorem Representable.of_steps {r : Reach} (h : s.Representable) (hsteps : Steps r s s') :
    s'.Representable := by
  induction hsteps with
  | refl => exact h
  | tail _ hstep ih =>
    cases hstep with
    | scheduled _ hclock =>
      obtain ⟨hlimit, rfl⟩ := Clock.schedule?_eq_some_iff.1 hclock
      intro timer htimer
      rcases Clock.mem_insert.1 htimer with rfl | htimer
      · exact hlimit
      · exact ih timer htimer
    | moved => exact fun timer htimer => ih timer ((List.dropWhile_sublist _).mem htimer)
    | _ => exact ih

variable [Condition κ]

/-- A tick that succeeds makes no deadline that is not representable. -/
theorem Representable.tick {count : Nat} (h : s.Representable) (htick : tick s = .ok count s') :
    s'.Representable := h.of_steps (steps_of_tick htick)

/-- What is left to do when a drive that does not move the time is over. -/
theorem drive_now_eq_ok {left : Nat} (h : drive .now budget s = .ok left s') (hs : s.Representable) :
    left ≤ budget ∧ s'.isRunnable = false ∧ s'.config = s.config ∧
      s'.clock.now = s.clock.now ∧ s'.Representable := by
  obtain ⟨hleft, hidle, hkept⟩ := drive_eq_ok
    (P := fun s' => s'.config = s.config ∧ s'.clock.now = s.clock.now ∧ s'.Representable)
    (fun s₀ s₁ hs hrunnable => makeRunnable_now hrunnable ▸ hs)
    (fun s₀ count s₁ hs htick => by
      obtain ⟨hconfig, hnow⟩ := tick_eq_ok htick
      exact ⟨hconfig.trans hs.1, hnow.trans hs.2.1, hs.2.2.tick htick⟩) h ⟨rfl, rfl, hs⟩
  exact ⟨hleft, (idle_of_eq hidle).1, hkept⟩

/-- A drive up to the present time does not move the time. -/
theorem drive_upTo_now (budget : Nat) (h : s.clock.now = time) :
    drive (.upTo time) budget s = drive .now budget s := by
  have hmake : ∀ s : Engine π κ, s.clock.now = time →
      makeRunnable (.upTo time) s = makeRunnable .now s := by
    intro s hnow
    -- With nothing queued, what is pending is later than now, and so beyond the horizon.
    by_cases hready : s.isRunnable = true
    · rw [(MakesRunnable.already hready).eq, (MakesRunnable.already hready).eq]
    · have hidle := Bool.eq_false_iff.2 hready
      have hlate := (isRunnable_eq_false_iff.1 hidle).2
      have hbeyond : ∀ timer, s.clock.pending.head? = some timer →
          (Horizon.upTo time).allows timer.fireAt = false := by
        intro timer hhead
        have := hlate timer hhead
        apply decide_eq_false
        omega
      rw [(MakesRunnable.idle hidle hbeyond).eq, (MakesRunnable.idle hidle fun _ _ => rfl).eq]
  induction budget generalizing s with
  | zero => exact bind_of_eq (hmake s h) _
  | succ budget ih =>
    rcases makeRunnable_cases .now s with ⟨s₁, hrunnable⟩ | hidle
    · obtain rfl := makeRunnable_now hrunnable
      rw [drive_succ_of_runnable ((hmake s₁ h).trans hrunnable), drive_succ_of_runnable hrunnable]
      cases htick : tick s₁ with
      | error stop s₂ => rw [bind_of_error htick, bind_of_error htick]
      | ok count s₂ =>
        rw [bind_of_ok htick, bind_of_ok htick]
        exact ih ((tick_eq_ok htick).2.trans h)
    · rw [drive_of_idle ((hmake s h).trans hidle), drive_of_idle hidle]

/-! ## Budgets -/

/-- A drive that begins with something runnable pays for a tick at least. -/
theorem left_lt_budget {horizon : Horizon} {left : Nat} (h : drive horizon budget s = .ok left s')
    (hrunnable : makeRunnable horizon s = .ok true s₁) : left < budget := by
  cases budget with
  | zero =>
    rw [drive_zero_of_runnable hrunnable] at h
    cases h
  | succ budget =>
    rw [drive_succ_of_runnable hrunnable] at h
    cases htick : tick s₁ with
    | error stop s₂ =>
      rw [bind_of_error htick] at h
      cases h
    | ok count s₂ =>
      rw [bind_of_ok htick] at h
      have hpaid := drive_eq_ok (P := fun _ => True) (fun _ _ _ _ => trivial)
        (fun _ _ _ _ _ => trivial) h trivial
      exact Nat.lt_succ_of_le hpaid.1

/-- A drive that a smaller budget is enough for. -/
theorem drive_fresh {horizon : Horizon} {fresh : Nat} (h : budget ≤ fresh)
    (hbudget : ∀ limit s', drive horizon budget s ≠ .error (.failed (.tickBudgetExhausted limit)) s') :
    drive horizon fresh s =
      (drive horizon budget >>= fun left => pure (left + (fresh - budget)) : Act π κ Nat) s := by
  rw [← drive_spare (fresh - budget) hbudget, Nat.add_sub_cancel' h]

/-! ## Rounds -/

/-- Runs what is runnable. Returns how long to wait for the next timer, if there is one. -/
def round : Act π κ (Option Nat) := do
  discard runUntilIdle
  return (← get).clock.timeToNext?

/-- Goes through so many rounds at most, and lets the time pass that each one asks for. Returns
whether no timer is left. -/
def rounds : Nat → Act π κ Bool
  | 0 => return false
  | n + 1 => do
    match ← round with
    | none => return true
    | some span =>
      advanceBy span
      rounds n

theorem round_eq (s : Engine π κ) :
    round s = (drive .now s.config.maxTicks >>= fun _ => do return (← get).clock.timeToNext? :
      Act π κ (Option Nat)) s := by
  unfold round
  rw [discard_bind, runUntilIdle, bind_of_eq (driveAll_eq .now s), bind_assoc]
  rfl

/-- The first drive of a round fails. -/
theorem rounds_of_error {stop : Stop} (n : Nat)
    (h : drive .now s.config.maxTicks s = .error stop s') : rounds (n + 1) s = .error stop s' :=
  bind_of_error ((round_eq s).trans (bind_of_error h))

/-- The first drive of a round leaves no timer. -/
theorem rounds_of_none {left : Nat} (n : Nat) (h : drive .now s.config.maxTicks s = .ok left s')
    (hhead : s'.clock.pending.head? = none) : rounds (n + 1) s = .ok true s' := by
  have hround : round s = .ok none s' := by
    rw [round_eq, bind_of_ok h, get_bind, Clock.timeToNext?, Clock.nextDeadline?, hhead]
    rfl
  exact bind_of_ok hround

/-- The first drive of a round leaves a timer. -/
theorem rounds_of_some {left : Nat} {timer : Timer Task} (n : Nat)
    (h : drive .now s.config.maxTicks s = .ok left s')
    (hhead : s'.clock.pending.head? = some timer) :
    rounds (n + 1) s =
      (advanceBy (timer.fireAt - s'.clock.now) >>= fun _ => rounds n : Act π κ Bool) s' := by
  have hround : round s = .ok (some (timer.fireAt - s'.clock.now)) s' := by
    rw [round_eq, bind_of_ok h, get_bind, Clock.timeToNext?, Clock.nextDeadline?, hhead]
    rfl
  exact bind_of_ok hround

/-- Where nothing is runnable, the next piece begins at the first deadline, whether an engine is
settled or time passes up to there. -/
theorem exists_moved {timer : Timer Task} (hs : s.Representable) (hidle : s.isRunnable = false)
    (hhead : s.clock.pending.head? = some timer) :
    ∃ s₁ : Engine π κ, s₁.Representable ∧ s₁.config = s.config ∧
      makeRunnable .now s₁ = .ok true s₁ ∧
      (∀ budget, drive .unbounded budget s =
        (drive .now budget >>= drive .unbounded : Act π κ Nat) s₁) ∧
      advanceBy (timer.fireAt - s.clock.now) s =
        (drive .now s.config.maxTicks >>= fun _ => pure () : Act π κ Unit) s₁ := by
  let s₁ : Engine π κ := { s with clock := s.clock.advanceTo timer.fireAt }
  have hready : ∀ horizon, makeRunnable horizon s₁ = .ok true s₁ := fun _ =>
    (MakesRunnable.already (isRunnable_advanceTo hhead)).eq
  have hmoved : ∀ horizon : Horizon, horizon.allows timer.fireAt = true →
      makeRunnable horizon s = makeRunnable horizon s₁ := fun horizon hallows =>
    (MakesRunnable.moved timer hidle hhead hallows).eq.trans (hready horizon).symm
  refine ⟨s₁, hs, rfl, hready .now, fun budget => ?_, ?_⟩
  · rw [drive_of_eq (hmoved .unbounded rfl)]
    exact drive_cut (Horizon.within_unbounded .now) budget s₁
  · have hlate := (isRunnable_eq_false_iff.1 hidle).2 timer hhead
    have hnow : s₁.clock.now = timer.fireAt := Nat.max_eq_right (Nat.le_of_lt hlate)
    have hadd : Duration.add? s.clock.now (timer.fireAt - s.clock.now) = some timer.fireAt := by
      rw [Duration.add?, Nat.add_sub_cancel' (Nat.le_of_lt hlate)]
      exact if_pos (hs timer (List.mem_of_mem_head? hhead))
    have hdrive : drive (.upTo timer.fireAt) s.config.maxTicks s = drive .now s.config.maxTicks s₁ :=
      (drive_of_eq (hmoved _ (Horizon.allows_upTo.2 (Nat.le_refl _))) _).trans (drive_upTo_now _ hnow)
    rw [advanceBy_of_add? hadd, passTo, bind_of_eq hdrive]
    cases h : drive .now s.config.maxTicks s₁ with
    | error stop s' => rw [bind_of_error h, bind_of_error h]
    -- The time has come already, so it does not pass at the end.
    | ok left s' =>
      obtain ⟨-, -, -, hnow', -⟩ := drive_now_eq_ok h hs
      have hstays : s'.clock.advanceTo timer.fireAt = s'.clock :=
        s'.clock.advanceTo_of_le (Nat.le_of_eq (hnow'.trans hnow).symm)
      rw [bind_of_ok h, bind_of_ok h]
      show EStateM.Result.ok () { s' with clock := s'.clock.advanceTo timer.fireAt } = .ok () s'
      rw [hstays]

/-- Settling with a part of the budget comes to what rounds come to, if the part is enough. -/
theorem exists_rounds (hs : s.Representable) (hfresh : budget ≤ s.config.maxTicks)
    (hbudget : ∀ limit s', drive .unbounded budget s ≠
      .error (.failed (.tickBudgetExhausted limit)) s') :
    ∃ n, rounds n s = (drive .unbounded budget >>= fun _ => pure true : Act π κ Bool) s := by
  -- Every round but the last one pays for a tick in its second drive.
  induction budget using Nat.strongRecOn generalizing s with
  | ind budget ih =>
    have hcut := drive_cut (Horizon.within_unbounded .now) budget s
    rw [hcut] at hbudget
    rw [bind_of_eq hcut, bind_assoc]
    have hfirst : drive .now s.config.maxTicks s = _ :=
      drive_fresh hfresh fun limit s' h => hbudget limit s' (bind_of_error h)
    cases hnow : drive .now budget s with
    | error stop s' =>
      rw [bind_of_error hnow] at hfirst ⊢
      exact ⟨1, rounds_of_error 0 hfirst⟩
    | ok left s' =>
      rw [bind_of_ok hnow] at hfirst hbudget ⊢
      obtain ⟨hleft, hidle, hconfig, -, hs'⟩ := drive_now_eq_ok hnow hs
      cases hhead : s'.clock.pending.head? with
      | none =>
        have hrest : makeRunnable .unbounded s' = .ok false s' :=
          (MakesRunnable.idle hidle fun timer h => by rw [hhead] at h; cases h).eq
        rw [bind_of_ok (drive_of_idle hrest)]
        exact ⟨1, rounds_of_none 0 hfirst hhead⟩
      | some timer =>
        obtain ⟨s₁, hs₁, hconfig₁, hready, hsettle, hadvance⟩ := exists_moved hs' hidle hhead
        have hfresh₁ : left ≤ s'.config.maxTicks := hconfig ▸ Nat.le_trans hleft hfresh
        rw [hsettle] at hbudget
        rw [bind_of_eq (hsettle left), bind_assoc]
        have hsecond : drive .now s'.config.maxTicks s₁ = _ :=
          drive_fresh hfresh₁ fun limit s₂ h => hbudget limit s₂ (bind_of_error h)
        have hround := fun n => rounds_of_some n hfirst hhead
        cases hpaid : drive .now left s₁ with
        | error stop s₂ =>
          rw [bind_of_error hpaid] at hsecond ⊢
          have hstop := hadvance.trans (bind_of_error hsecond)
          exact ⟨1, (hround 0).trans (bind_of_error hstop)⟩
        | ok left' s₂ =>
          rw [bind_of_ok hpaid] at hsecond hbudget ⊢
          obtain ⟨hleft', -, hconfig₂, -, hs₂⟩ := drive_now_eq_ok hpaid hs₁
          have hlt : left' < budget := Nat.lt_of_lt_of_le (left_lt_budget hpaid hready) hleft
          have hfresh₂ : left' ≤ s₂.config.maxTicks := by
            rw [hconfig₂, hconfig₁]
            exact Nat.le_trans hleft' hfresh₁
          obtain ⟨n, hn⟩ := ih left' hlt hs₂ hfresh₂ hbudget
          have hpassed := hadvance.trans (bind_of_ok hsecond)
          exact ⟨n + 1, (hround n).trans ((bind_of_ok hpassed).trans hn)⟩

/-- Settling leaves nothing queued and no timer. -/
theorem drive_unbounded_eq_ok {left : Nat} (h : drive .unbounded budget s = .ok left s') :
    s'.queue = #[] ∧ s'.clock.pending = [] := by
  obtain ⟨-, hidle, -⟩ := drive_eq_ok (P := fun _ => True) (fun _ _ _ _ => trivial)
    (fun _ _ _ _ _ => trivial) h trivial
  obtain ⟨hnot, hbeyond⟩ := idle_of_eq hidle
  refine ⟨(isRunnable_eq_false_iff.1 hnot).1, ?_⟩
  cases hpending : s'.clock.pending with
  | nil => rfl
  | cons timer rest =>
    rw [hpending] at hbeyond
    cases hbeyond timer rfl

theorem settle_eq (s : Engine π κ) :
    settle s = (drive .unbounded s.config.maxTicks >>= fun _ => pure () : Act π κ Unit) s := by
  show (driveAll .unbounded >>= fun _ => pure () : Act π κ Unit) s = _
  rw [bind_of_eq (driveAll_eq .unbounded s), bind_assoc]
  rfl

/-- **Driving by the wall clock agrees with settling.** If settling succeeds, then rounds come to an
end in the same engine, with nothing queued and no timer left; and if settling fails, but for its
budget, then rounds fail in the same way and leave the same engine. -/
theorem settle_in_rounds (hs : s.Representable) :
    (∀ s', settle s = .ok () s' →
      (∃ n, rounds n s = .ok true s') ∧ s'.queue = #[] ∧ s'.clock.pending = []) ∧
    ∀ stop s', settle s = .error stop s' →
      (∀ limit, stop ≠ .failed (.tickBudgetExhausted limit)) → ∃ n, rounds n s = .error stop s' := by
  rw [settle_eq]
  cases hdrive : drive .unbounded s.config.maxTicks s with
  | ok left s₀ =>
    have hbudget : ∀ limit s', drive .unbounded s.config.maxTicks s ≠
        .error (.failed (.tickBudgetExhausted limit)) s' := fun limit s' h => by
      rw [hdrive] at h
      cases h
    -- Settling did not run out of ticks, so the rounds together have ticks enough.
    obtain ⟨n, hn⟩ := exists_rounds hs (Nat.le_refl _) hbudget
    rw [bind_of_ok hdrive] at hn ⊢
    refine ⟨?_, fun stop s' h => by cases h⟩
    rintro s' ⟨⟩
    exact ⟨⟨n, hn⟩, drive_unbounded_eq_ok hdrive⟩
  | error stop₀ s₀ =>
    rw [bind_of_error hdrive]
    refine ⟨fun s' h => (by cases h), ?_⟩
    rintro stop s' ⟨⟩ hstop
    have hbudget : ∀ limit s', drive .unbounded s.config.maxTicks s ≠
        .error (.failed (.tickBudgetExhausted limit)) s' := fun limit s' h => by
      rw [hdrive] at h
      cases h
      exact hstop limit rfl
    obtain ⟨n, hn⟩ := exists_rounds hs (Nat.le_refl _) hbudget
    exact ⟨n, hn.trans (bind_of_error hdrive)⟩

/-- Two echoes, one of the other: rounds come to rest when settling does, at the second deadline. -/
theorem settle_in_rounds_of_echoes :
    ∃ s s' : Engine Script Test, s.clock.pending.map Timer.fireAt = [5] ∧ s.Representable ∧
      settle s = .ok () s' ∧ s'.clock.now = 10 ∧ (∃ n, rounds n s = .ok true s') ∧
      s'.queue = #[] ∧ s'.clock.pending = [] := by
  let spec : SpecNode := ⟨"component",
    [("consumers", .nodes [⟨"echo", []⟩]), ("producers", .nodes [⟨"echo", []⟩])]⟩
  have hrun : (Graph.build Registry.echo {} spec).toOption.map (fun g =>
      let s := (g.operateAll [.push .unit]).2.engine
      let m := Moment.ended settle s
      (s.clock.pending.map Timer.fireAt, m.stop?.isNone, m.engine.clock.now)) =
        some ([5], true, 10) := by decide +kernel
  cases h : Graph.build Registry.echo {} spec with
  | error stop =>
    rw [h] at hrun
    cases hrun
  | ok g =>
    rw [h] at hrun
    obtain ⟨hpending, hrest⟩ := Prod.mk.inj (Option.some.inj hrun)
    obtain ⟨hstop, hnow⟩ := Prod.mk.inj hrest
    let s := (g.operateAll [.push .unit]).2.engine
    have hs : s.Representable := by
      intro timer htimer
      have hfire : timer.fireAt ∈ s.clock.pending.map Timer.fireAt := List.mem_map_of_mem htimer
      rw [hpending, List.mem_singleton] at hfire
      rw [hfire]
      decide
    cases hsettle : settle s with
    | error stop s' =>
      rw [Moment.ended, hsettle] at hstop
      cases hstop
    | ok u s' =>
      rw [Moment.ended, hsettle] at hnow
      exact ⟨s, s', hpending, hs, hsettle, hnow, (settle_in_rounds hs).1 s' hsettle⟩

end Dataflow.Engine
