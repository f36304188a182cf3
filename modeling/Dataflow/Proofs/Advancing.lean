import Dataflow.Proofs.Timing

/-!
# Time in pieces

Letting time pass in two pieces comes to the same as letting it pass at once, whatever happens on
the way, as long as the budget lasts. A drive can be cut at an earlier horizon (`drive_cut`). At the
cut nothing is left to do, so the time may be moved on to it without any change to what follows
(`passTo_advanced`), and a budget that is larger than needed changes nothing but what is left of it
(`drive_spare`).
-/

namespace Dataflow

open Moment

/-! ## Ticks take no time -/

section

variable {π κ : Type} {s s' : Engine π κ}

/-- But for drives, no job moves the time or leads to a drive. -/
theorem Job.Begins.now {job : Job} {jobs : List Job} (h : job.Begins s jobs s') (hjob : ¬job.IsDrive) :
    s'.clock.now = s.clock.now ∧ ∀ j ∈ jobs, ¬j.IsDrive := by
  cases h with
  | entered =>
    exact ⟨rfl, List.forall_mem_cons.2 ⟨fun h => h, List.forall_mem_singleton.2 fun h => h⟩⟩
  | propagated _ _ hstill hjobs =>
    exact ⟨congrArg Clock.now hstill.clock, fun j hj => (hjobs j hj).isCall.not_isDrive⟩
  | sent _ hstill => exact ⟨congrArg Clock.now hstill.clock, List.forall_mem_nil _⟩
  | scheduled hclock =>
    obtain ⟨-, rfl⟩ := Clock.schedule?_eq_some_iff.1 hclock
    exact ⟨rfl, List.forall_mem_nil _⟩
  | batched task tasks =>
    have hcalls : ∀ j ∈ task.jobs, ¬j.IsDrive := fun j hj => (task.isCall_jobs j hj).not_isDrive
    exact ⟨rfl, List.forall_mem_append.2 ⟨hcalls, List.forall_mem_singleton.2 fun h => h⟩⟩
  | ticked => exact ⟨rfl, List.forall_mem_singleton.2 fun h => h⟩
  | driven => exact absurd trivial hjob
  | rested => exact absurd trivial hjob
  | _ => exact ⟨rfl, List.forall_mem_nil _⟩

/-- A job that fails lets no time pass, unless it is a drive. -/
theorem Job.Fails.now {job : Job} {stop : Stop} (h : job.Fails s stop s') (hjob : ¬job.IsDrive) :
    s'.clock.now = s.clock.now := by
  cases h with
  | tooDeep => rfl
  | propagated _ _ hstill => exact congrArg Clock.now hstill.clock
  | exhausted => exact absurd trivial hjob

variable [Process π] [Condition κ] {m m' : Moment π κ}

/-- Where no drive is to be done, no time passes and none will be. -/
theorem Moment.now_of_comes (h : Comes m m') (hdrives : ∀ job ∈ m.todo, ¬job.IsDrive) :
    m'.engine.clock.now = m.engine.clock.now ∧ ∀ job ∈ m'.todo, ¬job.IsDrive := by
  induction h with
  | refl => exact ⟨rfl, hdrives⟩
  | tail _ hnext ih =>
    obtain ⟨hnow, hdrives'⟩ := ih
    obtain ⟨job, rest, htodo, hcases⟩ := next?_cases hnext
    rw [htodo] at hdrives'
    obtain ⟨hjob, hrest⟩ := List.forall_mem_cons.1 hdrives'
    rcases hcases with ⟨jobs, s', hbegins, rfl⟩ | ⟨stop, s', hfails, rfl⟩
    · obtain ⟨hnow', hjobs⟩ := hbegins.now hjob
      exact ⟨hnow'.trans hnow, List.forall_mem_append.2 ⟨hjobs, hrest⟩⟩
    · have hclock := congrArg Clock.now (clock_unwind rest s')
      exact ⟨hclock.trans ((hfails.now hjob).trans hnow), List.forall_mem_nil _⟩

/-- A tick leaves the configuration and the time as they are. -/
theorem Engine.tick_eq_ok {count : Nat} (h : tick s = .ok count s') :
    s'.config = s.config ∧ s'.clock.now = s.clock.now := by
  have hunfolds := unfolds_tick s
  rw [h] at hunfolds
  obtain ⟨hsteady, hcomes⟩ := hunfolds
  exact ⟨hsteady.config, (now_of_comes (hcomes []) (List.forall_mem_singleton.2 fun h => h)).1⟩

end

/-! ## Drives in pieces -/

namespace Engine

variable {π κ : Type} {s s₁ s' : Engine π κ} {horizon horizon' : Horizon}
  {budget left time time' : Nat}

/-- A horizon at a time allows what is due by then. -/
theorem Horizon.allows_upTo {deadline : Nat} :
    (Horizon.upTo time).allows deadline = true ↔ deadline ≤ time := decide_eq_true_iff

/-- The second horizon is at least as far as the first one. -/
def Horizon.Within (horizon horizon' : Horizon) : Prop :=
  ∀ deadline, horizon.allows deadline = true → horizon'.allows deadline = true

/-- An earlier time is within a later one. -/
theorem Horizon.upTo_within (h : time ≤ time') : (Horizon.upTo time).Within (.upTo time') :=
  fun _ hallows => allows_upTo.2 (Nat.le_trans (allows_upTo.1 hallows) h)

/-- Every horizon is within none at all. -/
theorem Horizon.within_unbounded (horizon : Horizon) : horizon.Within .unbounded := fun _ _ => rfl

/-- What can be made runnable within a horizon can be within a later one. -/
theorem makeRunnable_later (h : horizon.Within horizon')
    (hrunnable : makeRunnable horizon s = .ok true s₁) : makeRunnable horizon' s = .ok true s₁ := by
  cases makesRunnable_of_eq hrunnable with
  | already hready => exact (MakesRunnable.already hready).eq
  | moved timer hidle hhead hallows =>
    exact (MakesRunnable.moved timer hidle hhead (h timer.fireAt hallows)).eq

variable [Process π] [Condition κ]

/-- A drive can be cut at an earlier horizon. -/
theorem drive_cut (h : horizon.Within horizon') (budget : Nat) (s : Engine π κ) :
    drive horizon' budget s =
      (drive horizon budget >>= fun left => drive horizon' left : Act π κ Nat) s := by
  induction budget generalizing s with
  | zero =>
    rcases makeRunnable_cases horizon s with ⟨s₁, hrunnable⟩ | hidle
    · rw [drive_zero_of_runnable (makeRunnable_later h hrunnable),
        bind_of_error (drive_zero_of_runnable hrunnable)]
    · rw [bind_of_ok (drive_of_idle hidle)]
  | succ budget ih =>
    rcases makeRunnable_cases horizon s with ⟨s₁, hrunnable⟩ | hidle
    · rw [drive_succ_of_runnable (makeRunnable_later h hrunnable),
        bind_of_eq (drive_succ_of_runnable hrunnable), bind_assoc, funext ih]
    · rw [bind_of_ok (drive_of_idle hidle)]

/-- A budget that is larger than needed changes nothing but what is left of it. -/
theorem drive_spare (spare : Nat)
    (h : ∀ limit s', drive horizon budget s ≠ .error (.failed (.tickBudgetExhausted limit)) s') :
    drive horizon (budget + spare) s =
      (drive horizon budget >>= fun left => pure (left + spare) : Act π κ Nat) s := by
  induction budget generalizing s with
  | zero =>
    rcases makeRunnable_cases horizon s with ⟨s₁, hrunnable⟩ | hidle
    · exact absurd (drive_zero_of_runnable hrunnable) (h _ _)
    · rw [bind_of_ok (drive_of_idle hidle), drive_of_idle hidle]
      rfl
  | succ budget ih =>
    rcases makeRunnable_cases horizon s with ⟨s₁, hrunnable⟩ | hidle
    · have hsucc : budget + 1 + spare = budget + spare + 1 := Nat.add_right_comm budget 1 spare
      rw [hsucc, drive_succ_of_runnable hrunnable, bind_of_eq (drive_succ_of_runnable hrunnable),
        bind_assoc]
      rw [drive_succ_of_runnable hrunnable] at h
      cases htick : tick s₁ with
      | error stop s₂ => rw [bind_of_error htick, bind_of_error htick]
      | ok count s₂ =>
        rw [bind_of_ok htick] at h
        rw [bind_of_ok htick, bind_of_ok htick]
        exact ih h
    · rw [bind_of_ok (drive_of_idle hidle), drive_of_idle hidle]
      rfl

/-- A drive ends when nothing more can be made runnable, and is paid from its budget. What making
something runnable and ticks keep holds at its end. -/
theorem drive_eq_ok {P : Engine π κ → Prop}
    (hmoved : ∀ s s₁, P s → makeRunnable horizon s = .ok true s₁ → P s₁)
    (hticked : ∀ s count s', P s → tick s = .ok count s' → P s')
    (h : drive horizon budget s = .ok left s') (hs : P s) :
    left ≤ budget ∧ makeRunnable horizon s' = .ok false s' ∧ P s' := by
  induction budget generalizing s with
  | zero =>
    rcases makeRunnable_cases horizon s with ⟨s₁, hrunnable⟩ | hidle
    · rw [drive_zero_of_runnable hrunnable] at h
      cases h
    · rw [drive_of_idle hidle] at h
      cases h
      exact ⟨Nat.le_refl _, hidle, hs⟩
  | succ budget ih =>
    rcases makeRunnable_cases horizon s with ⟨s₁, hrunnable⟩ | hidle
    · rw [drive_succ_of_runnable hrunnable] at h
      cases htick : tick s₁ with
      | error stop s₂ =>
        rw [bind_of_error htick] at h
        cases h
      | ok count s₂ =>
        rw [bind_of_ok htick] at h
        obtain ⟨hleft, hend⟩ := ih h (hticked s₁ count s₂ (hmoved s s₁ hs hrunnable) htick)
        exact ⟨Nat.le_succ_of_le hleft, hend⟩
    · rw [drive_of_idle hidle] at h
      cases h
      exact ⟨Nat.le_refl _, hidle, hs⟩

/-- A drive up to a time that began in time ends in time. -/
theorem drive_upTo_eq_ok (h : drive (.upTo time) budget s = .ok left s') (hnow : s.clock.now ≤ time) :
    left ≤ budget ∧ makeRunnable (.upTo time) s' = .ok false s' ∧ s'.config = s.config ∧
      s'.clock.now ≤ time := by
  refine drive_eq_ok (P := fun s' => s'.config = s.config ∧ s'.clock.now ≤ time)
    (fun s₀ s₁ hs hrunnable => ?_) (fun s₀ count s₁ hs htick => ?_) h ⟨rfl, hnow⟩
  · cases makesRunnable_of_eq hrunnable with
    | already => exact hs
    | moved timer _ _ hallows => exact ⟨hs.1, Nat.max_le.2 ⟨hs.2, Horizon.allows_upTo.1 hallows⟩⟩
  · obtain ⟨hconfig, hticked⟩ := tick_eq_ok htick
    exact ⟨hconfig.trans hs.1, hticked ▸ hs.2⟩

/-! ## Letting time pass -/

/-- A drive up to a time, at the end of which the time has come. -/
def passTo (time budget : Nat) : Act π κ Unit := do
  let _ ← drive (.upTo time) budget
  modify fun s => { s with clock := s.clock.advanceTo time }

/-- To advance by a span is to let the time pass to where it ends. -/
theorem advanceBy_of_add? {span : Nat} (h : Duration.add? s.clock.now span = some time) :
    advanceBy span s = passTo time s.config.maxTicks s := by
  rw [advanceBy_eq, h]
  rfl

/-- A time may be passed to by way of an earlier one. -/
theorem passTo_cut (h : time ≤ time') (budget : Nat) (s : Engine π κ) :
    passTo time' budget s = (drive (.upTo time) budget >>= passTo time' : Act π κ Unit) s := by
  rw [passTo, bind_of_eq (drive_cut (Horizon.upTo_within h) budget s), bind_assoc]
  rfl

/-- A budget that was enough may be larger. -/
theorem passTo_spare (spare : Nat)
    (h : ∀ limit s', passTo time budget s ≠ .error (.failed (.tickBudgetExhausted limit)) s') :
    passTo time (budget + spare) s = passTo time budget s := by
  have hdrive : drive (.upTo time) (budget + spare) s = _ :=
    drive_spare spare fun limit s' hexhausted => h limit s' (bind_of_error hexhausted)
  rw [passTo, bind_of_eq hdrive, bind_assoc]
  rfl

/-- Where nothing is left to do before a time, the time may be moved on to it. -/
theorem passTo_advanced (h : time ≤ time') (hidle : makeRunnable (.upTo time) s = .ok false s)
    (budget : Nat) :
    passTo time' budget { s with clock := s.clock.advanceTo time } = passTo time' budget s := by
  obtain ⟨hnot, hbeyond⟩ := idle_of_eq hidle
  obtain ⟨hqueue, hlate⟩ := isRunnable_eq_false_iff.1 hnot
  let s₀ : Engine π κ := { s with clock := s.clock.advanceTo time }
  have hlater : ∀ timer, s.clock.pending.head? = some timer → time < timer.fireAt := by
    intro timer hhead
    have hallows := hbeyond timer hhead
    rw [Horizon.allows, decide_eq_false_iff_not] at hallows
    omega
  have hnot₀ : s₀.isRunnable = false := isRunnable_eq_false_iff.2
    ⟨hqueue, fun timer hhead => Nat.max_lt.2 ⟨hlate timer hhead, hlater timer hhead⟩⟩
  rcases makeRunnable_cases (.upTo time') s with ⟨s₁, hrunnable⟩ | hrest
  · cases makesRunnable_of_eq hrunnable with
    | already hready => exact absurd hready (Bool.eq_false_iff.1 hnot)
    -- Both drives begin by moving the time to the first deadline.
    | moved timer _ hhead hallows =>
      have hrunnable₀ := (MakesRunnable.moved (s := s₀) timer hnot₀ hhead hallows).eq
      have hclock : s₀.clock.advanceTo timer.fireAt = s.clock.advanceTo timer.fireAt :=
        s.clock.advanceTo_advanceTo (Nat.le_of_lt (hlater timer hhead))
      rw [hclock] at hrunnable₀
      exact bind_of_eq (drive_of_eq (hrunnable₀.trans hrunnable.symm) budget) _
  -- Both drives are over, and the time is moved to their end.
  · have hrest₀ : makeRunnable (.upTo time') s₀ = .ok false s₀ :=
      (MakesRunnable.idle hnot₀ (idle_of_eq hrest).2).eq
    have hclock := s.clock.advanceTo_advanceTo h
    rw [passTo, bind_of_ok (drive_of_idle hrest), bind_of_ok (drive_of_idle hrest₀)]
    show EStateM.Result.ok () { s with clock := (s.clock.advanceTo time).advanceTo time' } = _
    rw [hclock]
    rfl

/-- **Time passes in pieces as it does at once.** If letting a time pass does not exhaust the
budget, then letting a part of it pass, and the rest when that succeeded, comes to the same: in the
same engine, and with the same failure if there is one. -/
theorem advanceBy_add {a b : Nat} (hlimit : s.clock.now + a + b < Duration.limit)
    (hbudget : ∀ limit s', advanceBy (a + b) s ≠ .error (.failed (.tickBudgetExhausted limit)) s') :
    (advanceBy a >>= fun _ => advanceBy b : Act π κ Unit) s = advanceBy (a + b) s := by
  let cut := s.clock.now + a
  let target := s.clock.now + a + b
  have hcut : cut ≤ target := Nat.le_add_right _ _
  have hfirst : Duration.add? s.clock.now a = some cut := if_pos (by omega)
  have hwhole : Duration.add? s.clock.now (a + b) = some target := by
    rw [Duration.add?, ← Nat.add_assoc]
    exact if_pos hlimit
  have hthrough : advanceBy (a + b) s =
      (drive (.upTo cut) s.config.maxTicks >>= passTo target : Act π κ Unit) s :=
    (advanceBy_of_add? hwhole).trans (passTo_cut hcut _ s)
  cases hdrive : drive (.upTo cut) s.config.maxTicks s with
  | error stop s' =>
    have hbefore : advanceBy a s = .error stop s' :=
      (advanceBy_of_add? hfirst).trans (bind_of_error hdrive)
    rw [bind_of_error hbefore, hthrough, bind_of_error hdrive]
  | ok left s' =>
    obtain ⟨hleft, hidle, hconfig, hnow⟩ := drive_upTo_eq_ok hdrive (Nat.le_add_right _ _)
    obtain ⟨spare, hspare⟩ := Nat.exists_eq_add_of_le hleft
    let s₁ : Engine π κ := { s' with clock := s'.clock.advanceTo cut }
    have hbefore : advanceBy a s = .ok () s₁ := (advanceBy_of_add? hfirst).trans (bind_of_ok hdrive)
    -- The second piece begins at the cut, with a budget of its own.
    have hcome : s₁.clock.now = cut := Nat.max_eq_right hnow
    have hafter : Duration.add? s₁.clock.now b = some target := hcome ▸ if_pos hlimit
    rw [bind_of_ok hdrive] at hthrough
    rw [hthrough] at hbudget
    calc (advanceBy a >>= fun _ => advanceBy b : Act π κ Unit) s
        = advanceBy b s₁ := bind_of_ok hbefore
      _ = passTo target s₁.config.maxTicks s₁ := advanceBy_of_add? hafter
      _ = passTo target s₁.config.maxTicks s' := passTo_advanced hcut hidle _
      _ = passTo target (left + spare) s' := by rw [← hspare, ← hconfig]
      _ = passTo target left s' := passTo_spare spare hbudget
      _ = advanceBy (a + b) s := hthrough.symm

/-- The time of two echoes, one of the other, cut where the first one is due. -/
theorem advanceBy_add_in_echoes :
    ∃ s : Engine Script Test,
      s.clock.pending.map Timer.fireAt = [5] ∧ s.clock.now + 5 + 6 < Duration.limit ∧
        (∀ limit s', advanceBy (5 + 6) s ≠ .error (.failed (.tickBudgetExhausted limit)) s') ∧
        (advanceBy 5 >>= fun _ => advanceBy 6 : Act Script Test Unit) s = advanceBy (5 + 6) s := by
  let spec : SpecNode := ⟨"component",
    [("consumers", .nodes [⟨"echo", []⟩]), ("producers", .nodes [⟨"echo", []⟩])]⟩
  have hrun : (Graph.build Registry.echo {} spec).toOption.map (fun g =>
      let s := (g.operateAll [.push .unit]).2.engine
      (s.clock.now, s.clock.pending.map Timer.fireAt, (ended (advanceBy (5 + 6)) s).stop?.isNone)) =
        some (0, [5], true) := by decide +kernel
  cases h : Graph.build Registry.echo {} spec with
  | error stop =>
    rw [h] at hrun
    cases hrun
  | ok g =>
    rw [h] at hrun
    obtain ⟨hnow, hrest⟩ := Prod.mk.inj (Option.some.inj hrun)
    obtain ⟨hpending, hstop⟩ := Prod.mk.inj hrest
    let s := (g.operateAll [.push .unit]).2.engine
    have hlimit : s.clock.now + 5 + 6 < Duration.limit := by
      rw [hnow]
      decide
    have hbudget : ∀ limit s', advanceBy (5 + 6) s ≠
        .error (.failed (.tickBudgetExhausted limit)) s' := fun limit s' hexhausted => by
      rw [ended, hexhausted] at hstop
      cases hstop
    exact ⟨s, hpending, hlimit, hbudget, advanceBy_add hlimit hbudget⟩

end Engine

end Dataflow
