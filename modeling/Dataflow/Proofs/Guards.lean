import Dataflow.Proofs.Budgets

/-!
# Limits are only guards

A limit does nothing but refuse: what has not been refused under it comes to the same under a larger
one. This is said of acts (`Guarded`), kept by doing one act after the other, and known of each call of
propagation from its jobs and of each drive from its ticks. So a graph that is built without being
refused is the same graph under larger limits, and it stays so as long as nothing is refused
(`limits_only_guard`).
-/

namespace Dataflow

open Moment

/-- Whether a limit is the reason for stopping. -/
def Stop.IsLimit : Stop → Prop
  | .failed (.depthExceeded _) | .failed (.tickBudgetExhausted _) => True
  | _ => False

/-- Whether a limit is the reason that there is no graph. -/
def BuildStop.IsLimit : BuildStop → Prop
  | .failed ⟨.run e, _⟩ => (Stop.failed e).IsLimit
  | .failed _ => False
  | .stopped stop => stop.IsLimit

/-- The same configuration with limits that are larger, or as large. -/
structure Config.Raises (c replaced : Config) : Prop where
  trace : c.trace = replaced.trace
  depth : replaced.maxDepth ≤ c.maxDepth
  ticks : replaced.maxTicks ≤ c.maxTicks

/-- Larger limits suit what no limit has stopped. -/
theorem Config.Raises.suits {c replaced : Config} {stop? : Option Stop} (h : c.Raises replaced)
    (hstop : ∀ stop, stop? = some stop → ¬stop.IsLimit) : c.Suits replaced stop? :=
  ⟨h.trace, h.depth, fun _ hdeep => absurd trivial (hstop _ hdeep)⟩

namespace Engine

variable {π κ : Type} {α β : Type} {c : Config} {s s' : Engine π κ}

/-! ## Acts that limits guard -/

/-- The engine that an act leaves behind. -/
def leftBy : EStateM.Result Stop (Engine π κ) α → Engine π κ
  | .ok _ s | .error _ s => s

/-- Limits do nothing to the act but stop it, and the act does nothing to them. -/
structure Guarded (act : Act π κ α) : Prop where
  under : ∀ {c : Config} {s}, c.Raises s.config →
    (∀ stop, stopOf? (act s) = some stop → ¬stop.IsLimit) → act (s.under c) = resultUnder c (act s)
  config : ∀ s, (leftBy (act s)).config = s.config

namespace Guarded

theorem pure (a : α) : Guarded (Pure.pure a : Act π κ α) := ⟨fun _ _ => rfl, fun _ => rfl⟩

/-- Acts in sequence are guarded if each of them is, as the first leaves the limits alone. -/
theorem bind {x : Act π κ α} {f : α → Act π κ β} (hx : Guarded x) (hf : ∀ a, Guarded (f a)) :
    Guarded (x >>= f) where
  under {c s} hc hstop := by
    have hunder := hx.under hc
    have hconfig := hx.config s
    cases h : x s with
    | ok a s' =>
      -- The limits that the second act finds are those that the first one found.
      rw [h] at hunder hconfig
      rw [bind_of_ok h] at hstop ⊢
      rw [bind_of_ok (hunder fun _ hnone => by cases hnone)]
      have hconfig : s'.config = s.config := hconfig
      exact (hf a).under (hconfig ▸ hc) hstop
    | error stop s' =>
      rw [h] at hunder
      rw [bind_of_error h] at hstop ⊢
      rw [bind_of_error (hunder hstop)]
      rfl
  config s := by
    have hconfig := hx.config s
    cases h : x s with
    | ok a s' =>
      rw [h] at hconfig
      rw [bind_of_ok h]
      exact ((hf a).config s').trans hconfig
    | error stop s' =>
      rw [h] at hconfig
      rw [bind_of_error h]
      exact hconfig

/-- An act that looks at the engine, but not at its configuration. -/
theorem get {f : Engine π κ → Act π κ β} (hf : ∀ c s, f (s.under c) = f s)
    (h : ∀ s, Guarded (f s)) : Guarded (MonadState.get >>= f) where
  under {c s} hc hstop := by
    rw [get_bind] at hstop ⊢
    rw [get_bind, hf]
    exact (h s).under hc hstop
  config s := by
    rw [get_bind]
    exact (h s).config s

/-- A loop is guarded if each turn is. -/
theorem forM {xs : List β} {f : β → Act π κ PUnit} (h : ∀ x, Guarded (f x)) : Guarded (xs.forM f) := by
  induction xs with
  | nil => exact .pure _
  | cons x xs ih => exact (h x).bind fun _ => ih

theorem node? (slot : SlotId) : Guarded (Engine.node? slot : Act π κ _) :=
  ⟨fun _ _ => rfl, fun _ => rfl⟩

theorem setNode (slot : SlotId) (node : Node π κ) : Guarded (Engine.setNode slot node) :=
  ⟨fun _ _ => rfl, fun _ => rfl⟩

/-- A listener is added whatever the limits. -/
theorem addListener (slot : SlotId) (listener : Listener) :
    Guarded (Engine.addListener slot listener : Act π κ Bool) := by
  refine (node? slot).bind fun node? => ?_
  cases node? with
  | some node => exact (setNode slot _).bind fun _ => .pure true
  | none => exact .pure false

theorem takeOutputs : Guarded (Engine.takeOutputs : Act π κ _) := ⟨fun _ _ => rfl, fun _ => rfl⟩

theorem takeRendered : Guarded (Engine.takeRendered : Act π κ _) := ⟨fun _ _ => rfl, fun _ => rfl⟩

theorem teardown : Guarded (Engine.teardown : Act π κ _) := ⟨fun _ _ => rfl, fun _ => rfl⟩

end Guarded

variable [Process π] [Condition κ]

/-- No act within reach changes the configuration. -/
theorem Leads.config {r : Reach} {result : EStateM.Result Stop (Engine π κ) α}
    (h : Leads r s result) : (leftBy result).config = s.config := by
  cases result with
  | ok a s' => exact h.1.sameWiring.config
  | error stop s' => exact h.1.sameWiring.config

namespace Guarded

/-- Propagation is guarded since its jobs do not ask for limits but to be refused. -/
theorem of_unfolds {act : Act π κ Unit} {jobs : List Job} (hunfolds : ∀ s, Unfolds jobs s (act s))
    (hdrive : ∀ job ∈ jobs, ¬job.IsDrive) (hleads : ∀ s, Leads .everything s (act s)) :
    Guarded act where
  under hc hstop := act_under hunfolds hdrive (hc.suits hstop)
  config s := (hleads s).config

/-- An input is guarded: larger limits let in what smaller ones did. -/
theorem setInput (slot : SlotId) (value : Value) :
    Guarded (Engine.setInput slot value : Act π κ Unit) :=
  .of_unfolds (fun s => unfolds_setInput _ slot value s rfl) (List.forall_mem_singleton.2 id)
    fun s => enters_setInput slot value s (Reach.closed_everything s) trivial

/-- An output is guarded, as the inputs are that it leads to. -/
theorem setOutput (slot : SlotId) (value : Value) :
    Guarded (Engine.setOutput slot value : Act π κ Unit) :=
  .of_unfolds (unfolds_setOutput slot value) (List.forall_mem_singleton.2 id)
    fun s => leads_setOutput value (Reach.closed_everything s) trivial

/-- A tick is guarded, as its tasks are. -/
theorem tick : Guarded (Engine.tick : Act π κ Nat) where
  under hc hstop := tick_under (hc.suits hstop)
  config s := (leads_tick Reach.drives_everything (Reach.closed_everything s)).config

end Guarded

/-! ## Drives -/

/-- What a drive leaves of its budget is at most the budget. -/
theorem left_le_budget {horizon : Horizon} {budget left : Nat}
    (h : drive horizon budget s = .ok left s') : left ≤ budget := by
  have hends := drive_ends horizon budget s
  rw [h] at hends
  cases hends with
  | rests => exact Nat.sub_le ..

/-- A drive that no limit stops comes to the same under larger ones, and has more of its budget left. -/
theorem drive_raised {horizon : Horizon} (hc : c.Raises s.config)
    (hstop : ∀ stop, stopOf? (drive horizon s.config.maxTicks s) = some stop → ¬stop.IsLimit) :
    drive horizon c.maxTicks (s.under c) = resultUnder c ((drive horizon s.config.maxTicks >>=
      fun left => pure (left + (c.maxTicks - s.config.maxTicks)) : Act π κ Nat) s) := by
  let more := c.maxTicks - s.config.maxTicks
  have hunder := drive_under (hc.suits hstop)
  -- The larger budget is the old one and some to spare. What is spared goes back if the old one did not
  -- run out.
  have hspare : (∀ limit s', drive horizon s.config.maxTicks (s.under c) ≠
      .error (.failed (.tickBudgetExhausted limit)) s') → drive horizon c.maxTicks (s.under c) = _ :=
    fun h => Nat.add_sub_cancel' hc.ticks ▸ drive_spare more h
  cases hdrive : drive horizon s.config.maxTicks s with
  | ok left s' =>
    rw [hdrive] at hunder
    rw [bind_of_ok hdrive, hspare fun limit s' h => by rw [hunder] at h; cases h]
    exact bind_of_ok hunder
  | error stop s' =>
    rw [hdrive] at hunder hstop
    have hother : ∀ limit, stop ≠ .failed (.tickBudgetExhausted limit) := by
      rintro limit rfl
      exact hstop _ rfl trivial
    rw [relimited_error hother] at hunder
    rw [bind_of_error hdrive, hspare fun limit s' h => ?_]
    · exact bind_of_error hunder
    · rw [hunder] at h
      cases h
      exact hother limit rfl

namespace Guarded

/-- A drive with the configured budget asks how much that is, but only to be refused. -/
theorem driveAll (horizon : Horizon) : Guarded (Engine.driveAll horizon : Act π κ Nat) where
  under {c s} hc hstop := by
    rw [driveAll_eq] at hstop ⊢
    rw [driveAll_eq]
    have hraised : _ → drive horizon c.maxTicks (s.under c) = _ := drive_raised hc
    show (drive horizon c.maxTicks >>= fun left => Pure.pure (c.maxTicks - left) : Act π κ Nat)
      (s.under c) = _
    cases hdrive : drive horizon s.config.maxTicks s with
    | ok left s' =>
      have hleft := left_le_budget hdrive
      have hticks := hc.ticks
      rw [hdrive, bind_of_ok hdrive] at hraised
      rw [bind_of_ok hdrive, bind_of_ok (hraised fun _ hnone => by cases hnone)]
      show EStateM.Result.ok (c.maxTicks - (left + (c.maxTicks - s.config.maxTicks))) _ =
        .ok (s.config.maxTicks - left) _
      -- The ticks spent are the difference of budget and rest, and both are larger by as much.
      rw [show c.maxTicks - (left + (c.maxTicks - s.config.maxTicks)) = s.config.maxTicks - left by
        omega]
    | error stop s' =>
      rw [bind_of_error hdrive] at hstop
      rw [hdrive, bind_of_error hdrive] at hraised
      rw [bind_of_error hdrive, bind_of_error (hraised hstop)]
      rfl
  config s := (leads_driveAll Reach.drives_everything horizon (Reach.closed_everything s)).config

omit [Process π] [Condition κ] in
theorem discard {act : Act π κ α} (h : Guarded act) : Guarded (Functor.discard act) :=
  h.bind fun _ => .pure _

/-- To let time pass is guarded, as its drive is. -/
theorem advanceBy (span : Nat) : Guarded (Engine.advanceBy span : Act π κ Unit) := by
  refine .get (fun _ _ => rfl) fun s => ?_
  cases Duration.add? s.clock.now span with
  | none => exact ⟨fun _ _ => rfl, fun _ => rfl⟩
  | some target =>
    exact (driveAll (.upTo target)).discard.bind fun _ => ⟨fun _ _ => rfl, fun _ => rfl⟩

end Guarded

end Engine

/-! ## Graphs -/

/-- A use of a graph, which may be freed and used on. -/
inductive Use where
  | operation (op : Operation)
  | teardown

/-- What a use answers: what the operation does, or how many nodes were freed. -/
abbrev UseAnswer := Answer ⊕ Nat

namespace Graph

open Engine

variable {π κ : Type} {c : Config}

/-- The graph under another configuration. -/
def under (c : Config) (g : Graph π κ) : Graph π κ := { g with engine := g.engine.under c }

/-- An act that is guarded, done with a graph. -/
theorem perform_under {α : Type} {act : Act π κ α} (hact : Guarded act) {g : Graph π κ}
    (hc : c.Raises g.engine.config)
    (hstop : ∀ stop, (g.perform act).1 = .error stop → ¬stop.IsLimit) :
    (g.under c).perform act = ((g.perform act).1, (g.perform act).2.under c) ∧
      (g.perform act).2.engine.config = g.engine.config := by
  have hunder := hact.under hc
  have hconfig := hact.config g.engine
  unfold perform at hstop ⊢
  cases h : act g.engine with
  | ok a s =>
    rw [h] at hunder hconfig
    have hdone : act (g.under c).engine = .ok a (s.under c) := hunder fun _ hnone => by cases hnone
    rw [hdone]
    exact ⟨rfl, hconfig⟩
  | error stop s =>
    rw [h] at hunder hconfig hstop
    have hstopped : act (g.under c).engine = .error stop (s.under c) :=
      hunder fun stop' hsome => by
        cases hsome
        exact hstop stop rfl
    rw [hstopped]
    exact ⟨rfl, hconfig⟩

variable [Process π] [Condition κ]

/-- The act of a use. -/
def useAct (g : Graph π κ) : Use → Act π κ UseAnswer
  | .operation op => return .inl (← g.act op)
  | .teardown => return .inr (← Engine.teardown)

/-- Uses a graph. -/
def use (g : Graph π κ) (u : Use) : Except Stop UseAnswer × Graph π κ := g.perform (g.useAct u)

/-- Uses a graph again and again. -/
def useAll (g : Graph π κ) : List Use → List (Except Stop UseAnswer) × Graph π κ
  | [] => ([], g)
  | u :: us =>
    let (answer, g) := g.use u
    let (answers, g) := g.useAll us
    (answer :: answers, g)

/-- Every operation is guarded. -/
theorem guarded_act (g : Graph π κ) (op : Operation) : Guarded (g.act op) := by
  cases op with
  | push value => exact (Guarded.setInput g.root value).bind fun _ => .pure _
  | tick => exact Guarded.tick.bind fun _ => .pure _
  | runUntilIdle => exact (Guarded.driveAll .now).bind fun _ => .pure _
  | advanceBy span => exact (Guarded.advanceBy span).bind fun _ => .pure _
  | settle => exact (Guarded.driveAll .unbounded).discard.bind fun _ => .pure _
  | tap slot => exact (Guarded.addListener slot .sink).bind fun _ => .pure _
  | takeOutputs => exact Guarded.takeOutputs.bind fun _ => .pure _
  | takeRendered => exact Guarded.takeRendered.bind fun _ => .pure _

/-- Every use is guarded, a teardown included. -/
theorem guarded_useAct (g : Graph π κ) (u : Use) : Guarded (g.useAct u) := by
  cases u with
  | operation op => exact (guarded_act g op).bind fun _ => .pure _
  | teardown => exact Guarded.teardown.bind fun _ => .pure _

/-- A use that no limit stops answers the same under larger limits. -/
theorem use_under {g : Graph π κ} (hc : c.Raises g.engine.config) (u : Use)
    (hstop : ∀ stop, (g.use u).1 = .error stop → ¬stop.IsLimit) :
    (g.under c).use u = ((g.use u).1, (g.use u).2.under c) ∧
      (g.use u).2.engine.config = g.engine.config := by
  -- The act of a use does not depend on the configuration of its graph.
  have hsame : (g.under c).useAct u = g.useAct u := by
    cases u with
    | operation op => cases op <;> rfl
    | teardown => rfl
  unfold use at hstop ⊢
  rw [hsame]
  exact perform_under (guarded_useAct g u) hc hstop

/-- As long as no limit stops it, a graph answers under larger limits as it does. -/
theorem useAll_under {g : Graph π κ} (hc : c.Raises g.engine.config) (us : List Use)
    (hstop : ∀ stop, .error stop ∈ (g.useAll us).1 → ¬stop.IsLimit) :
    (g.under c).useAll us = ((g.useAll us).1, (g.useAll us).2.under c) := by
  induction us generalizing g with
  | nil => rfl
  | cons u us ih =>
    have hcons : g.useAll (u :: us) =
        ((g.use u).1 :: ((g.use u).2.useAll us).1, ((g.use u).2.useAll us).2) := rfl
    rw [hcons] at hstop ⊢
    obtain ⟨huse, hconfig⟩ := use_under hc u fun stop h => hstop stop (h ▸ List.mem_cons_self ..)
    have hrest := ih (g := (g.use u).2) (hconfig ▸ hc) fun stop h =>
      hstop stop (List.mem_cons_of_mem _ h)
    show (((g.under c).use u).1 :: (((g.under c).use u).2.useAll us).1,
      (((g.under c).use u).2.useAll us).2) = _
    rw [huse, hrest]

/-- Activation is guarded, as each constant is. -/
theorem guarded_activate (constants : List SlotId) :
    Guarded (activate constants : Act π κ Unit) := by
  refine .forM fun slot => (Guarded.node? slot).bind fun node? => ?_
  rcases node? with - | ⟨kind, input?, state?, outputs⟩
  · exact .pure _
  · cases kind with
    | constant value => exact Guarded.setOutput slot value
    | _ => exact .pure _

variable {registry : Registry π κ} {config : Config} {spec : SpecNode}

/-- A graph that is built is built under larger limits. -/
theorem build_under_of_ok {g : Graph π κ} (hc : c.Raises config)
    (hbuild : build registry config spec = .ok g) :
    build registry c spec = .ok (g.under c) ∧ g.engine.config = config := by
  obtain ⟨wired, hassemble, hactivate⟩ := build_eq_ok_iff.1 hbuild
  have hguarded : Guarded (activate wired.constants : Act π κ Unit) := guarded_activate _
  have hunder := hguarded.under (s := engineOf config wired) hc
  have hconfig := hguarded.config (engineOf config wired)
  rw [hactivate] at hunder hconfig
  exact ⟨build_eq_ok_iff.2 ⟨wired, hassemble, hunder fun _ hnone => by cases hnone⟩, hconfig⟩

/-- A build that no limit stops comes to the same failure under larger limits. -/
theorem build_under_of_error {stop : BuildStop} (hc : c.Raises config)
    (hbuild : build registry config spec = .error stop) (hstop : ¬stop.IsLimit) :
    build registry c spec = .error stop := by
  unfold build at hbuild ⊢
  cases hassemble : assemble registry spec with
  | error error =>
    rw [hassemble] at hbuild
    exact hbuild
  | ok assembled =>
    obtain ⟨root, scope, wired⟩ := assembled
    rw [hassemble] at hbuild
    dsimp only at hbuild ⊢
    have hguarded : Guarded (activate wired.constants : Act π κ Unit) := guarded_activate _
    have hunder := hguarded.under (s := engineOf config wired) hc
    cases hactivate : activate wired.constants (engineOf config wired) with
    | ok _ s =>
      rw [hactivate] at hbuild
      cases hbuild
    | error why s =>
      rw [hactivate] at hbuild hunder
      -- Limits are reported as errors, and an error of activation is the error of the build.
      have hwhy : ¬why.IsLimit := by
        rintro hlimit
        cases why with
        | failed e =>
          cases hbuild
          exact hstop hlimit
        | _ => exact hlimit
      have hlarger : activate wired.constants (engineOf c wired) = .error why (s.under c) :=
        hunder fun _ hsome => Option.some.inj hsome ▸ hwhy
      rw [hlarger]
      cases why <;> exact hbuild

/-- **Limits are only guards.** What is not refused under limits, be it a build or a use of the graph that
was built, comes to the same under limits that are larger, and leaves the same graph. -/
theorem limits_only_guard (registry : Registry π κ) (config : Config) (spec : SpecNode)
    {depth ticks : Nat} (hdepth : config.maxDepth ≤ depth) (hticks : config.maxTicks ≤ ticks) :
    let larger : Config := { config with maxDepth := depth, maxTicks := ticks }
    (∀ stop, build registry config spec = .error stop → ¬stop.IsLimit →
      build registry larger spec = .error stop) ∧
      ∀ g, build registry config spec = .ok g →
        build registry larger spec = .ok (g.under larger) ∧
          ∀ us, (∀ stop, .error stop ∈ (g.useAll us).1 → ¬stop.IsLimit) →
            (g.under larger).useAll us = ((g.useAll us).1, (g.useAll us).2.under larger) := by
  intro larger
  have hraises : larger.Raises config := ⟨rfl, hdepth, hticks⟩
  refine ⟨fun stop hbuild hstop => build_under_of_error hraises hbuild hstop, fun g hbuild => ?_⟩
  obtain ⟨hlarger, hconfig⟩ := build_under_of_ok hraises hbuild
  refine ⟨hlarger, fun us hstop => useAll_under ?_ us hstop⟩
  rw [hconfig]
  exact hraises

/-- Under limits that are hardly enough echoes come as they would, and the graph is freed. -/
theorem limits_only_guard_echoes :
    let small : Config := { maxDepth := 3, maxTicks := 2 }
    let larger : Config := { maxDepth := 300, maxTicks := 200 }
    let us : List Use := [.operation (.advanceBy 5), .teardown, .operation (.push .unit)]
    small.maxDepth ≤ 300 ∧ small.maxTicks ≤ 200 ∧
      ∃ g, build Registry.echo small SpecNode.echoed = .ok g ∧
        build Registry.echo larger SpecNode.echoed = .ok (g.under larger) ∧
        (∀ stop, .error stop ∈ (g.useAll us).1 → ¬stop.IsLimit) ∧
        (g.under larger).useAll us = ((g.useAll us).1, (g.useAll us).2.under larger) := by
  intro small larger us
  have hrun : (build Registry.echo small SpecNode.echoed).toOption.map (fun g =>
      (g.useAll us).1.all Except.isOk) = some true := by decide +kernel
  refine ⟨by decide, by decide, ?_⟩
  cases h : build Registry.echo small SpecNode.echoed with
  | error stop =>
    rw [h] at hrun
    cases hrun
  | ok g =>
    rw [h] at hrun
    have hok := List.all_eq_true.1 (Option.some.inj hrun)
    have hstop : ∀ stop, .error stop ∈ (g.useAll us).1 → ¬stop.IsLimit := fun stop hmem => by
      have hsucceeds := hok _ hmem
      cases hsucceeds
    have hdepth : small.maxDepth ≤ 300 := by decide
    have hticks : small.maxTicks ≤ 200 := by decide
    obtain ⟨-, hguard⟩ := limits_only_guard Registry.echo small SpecNode.echoed hdepth hticks
    obtain ⟨hlarger, huses⟩ := hguard g h
    exact ⟨g, rfl, hlarger, hstop, huses us hstop⟩

end Graph

end Dataflow
