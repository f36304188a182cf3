import Dataflow.Proofs.Advancing

/-!
# Engines under another configuration

Of its configuration an engine asks three things: whether hops are reported, how deep inputs may
nest, and, when a drive begins or is out of budget, how many ticks a drive may run. All that jobs do
between asks the first thing alone (`Indifferent`). So until the next drive an engine does the same
under a configuration that agrees in the first and allows inputs to nest as deep, or deeper if they do
not nest too deep (`Config.Suits`): job by job (`Moment.next?_under`) and in the end
(`Moment.ended_under`).
-/

namespace Dataflow

open Moment

namespace Engine

variable {π κ : Type} {α β : Type} {c : Config} {s s' : Engine π κ}

/-- The engine under another configuration. -/
def under (c : Config) (s : Engine π κ) : Engine π κ := { s with config := c }

/-- Why an act stops early, if it does. -/
def stopOf? : EStateM.Result Stop (Engine π κ) α → Option Stop
  | .ok .. => none
  | .error stop _ => some stop

/-- What an act comes to, seen under another configuration. -/
def resultUnder (c : Config) :
    EStateM.Result Stop (Engine π κ) α → EStateM.Result Stop (Engine π κ) α
  | .ok a s => .ok a (s.under c)
  | .error stop s => .error stop (s.under c)

end Engine

/-- A configuration does for an act what the one it replaces does, if the act stops so: hops are reported
by both or by neither, inputs may nest as deep at least, and no deeper if they nest too deep. -/
structure Config.Suits (c replaced : Config) (stop? : Option Stop) : Prop where
  trace : c.trace = replaced.trace
  depth : replaced.maxDepth ≤ c.maxDepth
  same : ∀ limit, stop? = some (.failed (.depthExceeded limit)) → c.maxDepth = replaced.maxDepth

/-- What suits an act suits acts that do not stop early. -/
theorem Config.Suits.of_none {c replaced : Config} {stop? : Option Stop} (h : c.Suits replaced stop?) :
    c.Suits replaced none :=
  ⟨h.trace, h.depth, fun _ hstop => by cases hstop⟩

/-- A configuration suits all acts if it differs in the number of ticks only. -/
theorem Config.suits_of_eq {c replaced : Config} (htrace : c.trace = replaced.trace)
    (hdepth : c.maxDepth = replaced.maxDepth) (stop? : Option Stop) : c.Suits replaced stop? :=
  ⟨htrace, Nat.le_of_eq hdepth.symm, fun _ _ => hdepth⟩

/-! ## Acts that do not depend on limits -/

namespace Engine

variable {π κ : Type} {α β : Type} {c : Config} {s s' : Engine π κ}

/-- The act asks of the configuration whether hops are reported and nothing else, and keeps it. -/
structure Indifferent (act : Act π κ α) : Prop where
  under : ∀ {c : Config} {s}, c.trace = s.config.trace → act (s.under c) = resultUnder c (act s)
  config : ∀ {s a s'}, act s = .ok a s' → s'.config = s.config

namespace Indifferent

theorem pure (a : α) : Indifferent (Pure.pure a : Act π κ α) :=
  ⟨fun _ => rfl, fun h => by cases h; rfl⟩

theorem throw (stop : Stop) : Indifferent (MonadExcept.throw stop : Act π κ α) :=
  ⟨fun _ => rfl, fun h => by cases h⟩

/-- Acts in sequence are indifferent to limits if each of them is. -/
theorem bind {x : Act π κ α} {f : α → Act π κ β} (hx : Indifferent x) (hf : ∀ a, Indifferent (f a)) :
    Indifferent (x >>= f) where
  under {c s} htrace := by
    have hunder := hx.under htrace
    cases h : x s with
    | ok a s' =>
      rw [h] at hunder
      rw [bind_of_ok h, bind_of_ok hunder]
      exact (hf a).under (by rw [hx.config h, htrace])
    | error stop s' =>
      rw [h] at hunder
      rw [bind_of_error h, bind_of_error hunder]
      rfl
  config {s b s''} h := by
    cases hact : x s with
    | ok a s' =>
      rw [bind_of_ok hact] at h
      exact ((hf a).config h).trans (hx.config hact)
    | error stop s' =>
      rw [bind_of_error hact] at h
      cases h

/-- An act that looks at the engine, but not at its configuration. -/
theorem get {f : Engine π κ → Act π κ β} (hf : ∀ c s, f (s.under c) = f s)
    (h : ∀ s, Indifferent (f s)) : Indifferent (MonadState.get >>= f) where
  under {c s} htrace := by
    rw [get_bind, get_bind, hf]
    exact (h s).under htrace
  config {s b s'} hact := by
    rw [get_bind] at hact
    exact (h s).config hact

theorem node? (slot : SlotId) : Indifferent (Engine.node? slot : Act π κ _) :=
  ⟨fun _ => rfl, fun h => by cases h; rfl⟩

theorem setNode (slot : SlotId) (node : Node π κ) : Indifferent (Engine.setNode slot node) :=
  ⟨fun _ => rfl, fun h => by cases h; rfl⟩

theorem report (event : Event) : Indifferent (Engine.report event : Act π κ Unit) :=
  ⟨fun _ => rfl, fun h => by cases h; rfl⟩

/-- Whether a hop is traced is no matter of limits. -/
theorem trace (hop : Hop) : Indifferent (Engine.trace hop : Act π κ Unit) where
  under {c s} htrace := by
    have htraced : (s.under c).traced hop = (s.traced hop).under c := by
      unfold traced
      rw [show (s.under c).config.trace = s.config.trace from htrace]
      split <;> rfl
    rw [trace_eq, trace_eq, htraced]
    rfl
  config {s a s'} h := by
    rw [trace_eq] at h
    cases h
    obtain ⟨log, hlog⟩ := traced_eq hop s
    rw [hlog]

/-- Announcements are no matter of limits. -/
theorem announce (texts : List String) :
    Indifferent (texts.forM fun text => Engine.report (.announced text) : Act π κ PUnit) := by
  induction texts with
  | nil => exact .pure _
  | cons text texts ih => exact (report _).bind fun _ => ih

theorem setState (slot : SlotId) (value : Value) :
    Indifferent (Engine.setState slot value : Act π κ Unit) := by
  refine (node? slot).bind fun node? => ?_
  cases node? with
  | some node => exact (trace _).bind fun _ => setNode slot _
  | none => exact report _

/-- To send is no matter of limits. -/
theorem send (id : ChannelId) (value : Value) : Indifferent (Engine.send id value : Act π κ Unit) := by
  refine get (fun _ _ => rfl) fun s => ?_
  cases s.channels.get? id with
  | some channel => exact (trace _).bind fun _ => ⟨fun _ => rfl, fun h => by cases h; rfl⟩
  | none => exact report _

variable [Condition κ]

/-- To ask a condition enters no input, so no limit is looked at. -/
theorem evaluateCondition (slot : SlotId) (input : Value) :
    Indifferent (Engine.evaluateCondition slot input : Act π κ Bool) := by
  refine (node? slot).bind fun node? => ?_
  cases node? with
  | none => exact (report _).bind fun _ => pure false
  | some node =>
    refine (trace _).bind fun _ => (setNode slot _).bind fun _ => ?_
    obtain ⟨kind, input?, state?, outputs⟩ := node
    cases kind with
    | condition kind leaf =>
      dsimp only
      cases Condition.test leaf input state? with
      | ok holds => exact pure holds
      | error cause => exact throw _
    | constant value =>
      cases value with
      | bool holds => exact pure holds
      | _ => exact throw _
    | _ => exact throw _

/-- Conditions are asked up to the same one, whatever the limits. -/
theorem allHold (input : Value) (conditions : List SlotId) :
    Indifferent (Engine.allHold input conditions : Act π κ Bool) := by
  induction conditions with
  | nil => exact pure true
  | cons condition rest ih =>
    refine (evaluateCondition condition input).bind fun holds => ?_
    cases holds with
    | true => exact ih
    | false => exact pure false

end Indifferent

end Engine

/-! ## Jobs that do not depend on limits -/

namespace Job

open Engine

variable {π κ : Type} {c : Config} {s : Engine π κ}

/-- A relay counts its hops, and these are no configured limit. -/
theorem indifferent_startRelay (hops : Nat) (slot : SlotId) (value : Value) :
    Indifferent (startRelay hops slot value : Act π κ _) := by
  cases hops with
  | zero => exact .throw _
  | succ hops =>
    refine (Indifferent.node? slot).bind fun node? => ?_
    cases node? with
    | some node => exact (Indifferent.trace _).bind fun _ => .pure _
    | none => exact (Indifferent.report _).bind fun _ => .pure _

theorem indifferent_startDeliver (hops : Nat) (value : Value) (listener : Listener) :
    Indifferent (startDeliver hops value listener : Act π κ _) := by
  cases listener with
  | state slot => exact (Indifferent.setState slot value).bind fun _ => .pure _
  | broadcast id => exact (Indifferent.send id value).bind fun _ => .pure _
  | sink => exact ⟨fun _ => rfl, fun h => by cases h; rfl⟩
  | _ => exact .pure _

theorem indifferent_startHand (value : Value) (listener : Listener) :
    Indifferent (startHand value listener : Act π κ _) := by
  cases listener <;> exact .pure _

/-- An effect is carried out whatever the limits. -/
theorem indifferent_startCarryOut (slot : SlotId) (effect : Effect) :
    Indifferent (startCarryOut slot effect : Act π κ _) := by
  cases effect with
  | emit value => exact .get (fun _ _ => rfl) fun _ => .pure _
  | emitAfter delay value =>
    refine ⟨fun {c s} _ => ?_, fun {s a s'} h => ?_⟩
    · show startCarryOut slot (.emitAfter delay value) (s.under c) = _
      unfold startCarryOut under
      dsimp only
      cases s.clock.schedule? delay (.emit slot value) <;> rfl
    · unfold startCarryOut at h
      dsimp only at h
      cases hclock : s.clock.schedule? delay (.emit slot value) <;> rw [hclock] at h <;> cases h
      rfl
  | render value =>
    have hrendered : Indifferent (modify fun s => { s with rendered := s.rendered.push value } :
        Act π κ PUnit) := ⟨fun _ => rfl, fun h => by cases h; rfl⟩
    exact (Indifferent.trace _).bind fun _ => hrendered.bind fun _ => .pure _

theorem indifferent_startKindle (slot : SlotId) : Indifferent (startKindle slot : Act π κ _) := by
  refine (Indifferent.node? slot).bind fun node? => ?_
  rcases node? with - | ⟨kind, input?, state?, outputs⟩
  · exact .pure _
  · cases kind <;> exact .pure _

variable [Condition κ]

/-- Whether the branch of a conditional may be entered is decided when it begins. -/
theorem indifferent_startRoute (slot : SlotId) (input : Value) :
    Indifferent (startRoute slot input : Act π κ _) := by
  refine (Indifferent.node? slot).bind fun node? => ?_
  rcases node? with - | ⟨kind, input?, state?, outputs⟩
  · exact .pure _
  · cases kind with
    | conditional conditions positive negative? =>
      refine (Indifferent.allHold input conditions).bind fun matched => ?_
      refine (Indifferent.trace _).bind fun _ => ?_
      cases matched with
      | true => exact .pure _
      | false => cases negative? <;> exact .pure _
    | _ => exact .pure _

variable [Process π]

/-- An input is noted and run whatever the limits. It was let in when it began. -/
theorem indifferent_startHandle (slot : SlotId) (value : Value) :
    Indifferent (startHandle slot value : Act π κ _) := by
  refine (Indifferent.node? slot).bind fun node? => ?_
  cases node? with
  | none => exact (Indifferent.report _).bind fun _ => .pure _
  | some node =>
    refine (Indifferent.trace _).bind fun _ => (Indifferent.setNode slot _).bind fun _ => ?_
    obtain ⟨kind, input?, state?, outputs⟩ := node
    cases kind with
    | placeholder => exact (Indifferent.report _).bind fun _ => .pure _
    | condition kind leaf =>
      dsimp only
      cases Condition.test leaf value state? with
      | ok holds => exact .pure _
      | error cause => exact .throw _
    | process kind leaf =>
      refine (Indifferent.setNode slot _).bind fun _ => (Indifferent.announce _).bind fun _ => ?_
      dsimp only
      cases (Process.run leaf value state?).outcome with
      | ok effects => exact .pure _
      | error cause => exact .throw _
    | _ => exact .pure _

/-- All jobs but drives do the same under a configuration that suits them. -/
theorem start_under {job : Job} (hjob : ¬job.IsDrive) (h : c.Suits s.config (stopOf? (job.start s))) :
    job.start (s.under c) = resultUnder c (job.start s) := by
  have htrace := h.trace
  cases job with
  | enter slot value =>
    have hdepth := h.depth
    have hallowance : (s.under c).allowance = c.maxDepth - s.depth := rfl
    show startEnter slot value (s.under c) = resultUnder c (startEnter slot value s)
    by_cases hzero : s.allowance = 0
    · have hfails : startEnter slot value s = .error (.failed (.depthExceeded s.config.maxDepth)) s :=
        if_pos hzero
      have hsame : c.maxDepth = s.config.maxDepth := h.same s.config.maxDepth (congrArg stopOf? hfails)
      have hfails' : startEnter slot value (s.under c) =
          .error (.failed (.depthExceeded c.maxDepth)) (s.under c) :=
        if_pos (hallowance.trans (hsame ▸ hzero))
      rw [hfails, hfails', hsame]
      rfl
    · have hpositive : (s.under c).allowance ≠ 0 := by
        unfold Engine.allowance at hzero
        omega
      unfold startEnter
      rw [if_neg hzero, if_neg hpositive]
      rfl
  | handle slot value => exact (indifferent_startHandle slot value).under htrace
  | leave => rfl
  | route slot input => exact (indifferent_startRoute slot input).under htrace
  | relay hops slot value => exact (indifferent_startRelay hops slot value).under htrace
  | deliver hops listener value => exact (indifferent_startDeliver hops value listener).under htrace
  | hand listener value => exact (indifferent_startHand value listener).under htrace
  | carryOut slot effect => exact (indifferent_startCarryOut slot effect).under htrace
  | kindle slot => exact (indifferent_startKindle slot).under htrace
  | batch tasks => cases tasks <;> rfl
  | tick => rfl
  | drive horizon budget => exact absurd trivial hjob

end Job

/-! ## Moments under another configuration -/

namespace Moment

open Engine

variable {π κ : Type} {c : Config}

/-- The moment under another configuration. -/
def under (c : Config) (m : Moment π κ) : Moment π κ := { m with engine := m.engine.under c }

/-- To give up jobs is no matter of limits. -/
theorem unwind_under (todo : List Job) (s : Engine π κ) :
    unwind todo (s.under c) = (unwind todo s).under c := by
  induction todo generalizing s with
  | nil => rfl
  | cons job rest ih =>
    have hgiveUp : job.giveUp (s.under c) = (job.giveUp s).under c := by cases job <;> rfl
    rw [unwind, List.foldl_cons, hgiveUp]
    exact ih (job.giveUp s)

variable [Process π] [Condition κ] {m m' : Moment π κ}

/-- What comes next under a configuration that suits it is what comes next, unless it is a drive. -/
theorem next?_under (hdrive : ∀ job ∈ m.todo, ¬job.IsDrive) (hnext : m.next? = some m')
    (h : c.Suits m.engine.config m'.stop?) : (m.under c).next? = some (m'.under c) := by
  obtain ⟨s, todo, stop?⟩ := m
  cases todo with
  | nil => cases hnext
  | cons job rest =>
    have hunder := Job.start_under (c := c) (s := s) (List.forall_mem_cons.1 hdrive).1
    cases hstart : job.start s with
    | ok jobs s' =>
      rw [next?_of_ok hstart] at hnext
      cases hnext
      rw [hstart] at hunder
      exact next?_of_ok (hunder h)
    | error stop s' =>
      rw [next?_of_error hstart] at hnext
      cases hnext
      rw [hstart] at hunder
      have hunder' : (⟨s.under c, job :: rest, stop?⟩ : Moment π κ).next? = _ :=
        next?_of_error (hunder h)
      rw [unwind_under] at hunder'
      exact hunder'

/-- Nothing but a drive leads to a drive. -/
theorem not_isDrive_next (hdrive : ∀ job ∈ m.todo, ¬job.IsDrive) (hnext : m.next? = some m') :
    ∀ job ∈ m'.todo, ¬job.IsDrive := by
  obtain ⟨job, rest, htodo, ⟨jobs, s', hbegins, rfl⟩ | ⟨stop, s', -, rfl⟩⟩ := next?_cases hnext
  · rw [htodo] at hdrive
    obtain ⟨hjob, hrest⟩ := List.forall_mem_cons.1 hdrive
    refine List.forall_mem_append.2 ⟨?_, hrest⟩
    cases hbegins with
    | entered => exact List.forall_mem_cons.2 ⟨id, List.forall_mem_singleton.2 id⟩
    | propagated _ _ _ hjobs => exact fun j hj => (hjobs j hj).isCall.not_isDrive
    | batched task tasks =>
      exact List.forall_mem_append.2 ⟨fun j hj => (task.isCall_jobs j hj).not_isDrive,
        List.forall_mem_singleton.2 id⟩
    | ticked => exact List.forall_mem_singleton.2 id
    | driven => exact absurd trivial hjob
    | _ => exact List.forall_mem_nil _
  · exact List.forall_mem_nil _

/-- No drive comes of jobs without one. -/
theorem not_isDrive_comes (hdrive : ∀ job ∈ m.todo, ¬job.IsDrive) (hcomes : Comes m m') :
    ∀ job ∈ m'.todo, ¬job.IsDrive := by
  induction hcomes with
  | refl => exact hdrive
  | tail _ hnext ih => exact not_isDrive_next ih hnext

/-- Nothing but a drive is ever out of budget. -/
theorem stop_ne_exhausted (hdrive : ∀ job ∈ m.todo, ¬job.IsDrive) (hcomes : Comes m m')
    (hstart : m.stop? = none) (limit : Nat) :
    m'.stop? ≠ some (.failed (.tickBudgetExhausted limit)) := by
  intro hstop
  obtain ⟨before, job, rest, s', hbefore, htodo, hfails⟩ := exists_fails hcomes hstart hstop
  have hbegun := not_isDrive_comes hdrive hbefore
  rw [htodo] at hbegun
  cases hfails with
  | exhausted => exact (List.forall_mem_cons.1 hbegun).1 trivial
  | propagated _ _ _ hstops =>
    cases hstops with
    | refused hrefusal => exact hrefusal

/-- Nothing comes when nothing is left to do. -/
theorem eq_of_rest (hrest : m.todo = []) (h : Comes m m') : m = m' := by
  rcases h.cases_head with heq | ⟨_, hnext, -⟩
  · exact heq
  · rw [next?, hrest] at hnext
    cases hnext

/-- What comes is the same under limits that suit it. -/
theorem comes_under (hdrive : ∀ job ∈ m.todo, ¬job.IsDrive) (hcomes : Comes m m')
    (h : c.Suits m.engine.config m'.stop?) : Comes (m.under c) (m'.under c) := by
  induction hcomes using Relation.ReflTransGen.head_induction_on with
  | refl => exact .refl
  | @head m m₁ hnext hrest ih =>
    -- Only the last moment has a reason for stopping.
    have hsuits : c.Suits m.engine.config m₁.stop? := by
      obtain ⟨job, rest, -, ⟨jobs, s', -, rfl⟩ | ⟨stop, s', -, rfl⟩⟩ := next?_cases hnext
      · exact h.of_none
      · rw [eq_of_rest rfl hrest]
        exact h
    have hconfig := (sameWiring_of_next? hnext).config
    exact .head (next?_under hdrive hnext hsuits)
      (ih (not_isDrive_next hdrive hnext) (hconfig ▸ h))

/-- What comes in the end is determined. -/
theorem eq_of_comes {m₁ m₂ : Moment π κ} (h₁ : Comes m m₁) (h₂ : Comes m m₂) (hrest₁ : m₁.todo = [])
    (hrest₂ : m₂.todo = []) : m₁ = m₂ := by
  have hunique : Relator.RightUnique fun m m' : Moment π κ => m.next? = some m' :=
    fun _ _ _ h h' => Option.some.inj (h.symm.trans h')
  rcases Relation.ReflTransGen.total_of_right_unique hunique h₁ h₂ with h | h
  · exact eq_of_rest hrest₁ h
  · exact (eq_of_rest hrest₂ h).symm

omit [Process π] [Condition κ] in
/-- The moment in which an act has ended knows why it stopped. -/
theorem ended_stop? {α : Type} (act : Act π κ α) (s : Engine π κ) :
    (ended act s).stop? = stopOf? (act s) := by
  unfold ended
  cases act s <;> rfl

/-- An act without a drive ends alike under a configuration that suits it. -/
theorem ended_under {α : Type} {act : Act π κ α} {jobs : List Job}
    (hunfolds : ∀ s, Unfolds jobs s (act s)) (hdrive : ∀ job ∈ jobs, ¬job.IsDrive) {s : Engine π κ}
    (h : c.Suits s.config (stopOf? (act s))) : ended act (s.under c) = (ended act s).under c := by
  rw [← ended_stop?] at h
  exact eq_of_comes (hunfolds (s.under c)).comes
    (comes_under (m := ⟨s, jobs, none⟩) hdrive (hunfolds s).comes h) (ended_todo ..) (ended_todo ..)

omit [Process π] [Condition κ] in
/-- An act that ended without a reason for stopping ended well. -/
theorem ok_of_ended {α : Type} {act : Act π κ α} {s s' : Engine π κ}
    (h : ended act s = ⟨s', [], none⟩) : ∃ a, act s = .ok a s' := by
  unfold ended at h
  cases hact : act s with
  | ok a s₁ =>
    rw [hact] at h
    cases h
    exact ⟨a, rfl⟩
  | error stop s₁ =>
    rw [hact] at h
    cases h

omit [Process π] [Condition κ] in
/-- An act that ended with a reason for stopping stopped for it. -/
theorem error_of_ended {α : Type} {act : Act π κ α} {s s' : Engine π κ} {stop : Stop}
    (h : ended act s = ⟨s', [], some stop⟩) : act s = .error stop s' := by
  unfold ended at h
  cases hact : act s with
  | ok a s₁ =>
    rw [hact] at h
    cases h
  | error stop₁ s₁ =>
    rw [hact] at h
    cases h
    rfl

end Moment

/-! ## Ticks under another configuration -/

namespace Engine

variable {π κ : Type} {c : Config} {s : Engine π κ}

/-- What is runnable, and when, is no matter of limits. -/
theorem makeRunnable_under {horizon : Horizon} {runnable : Bool} {s' : Engine π κ}
    (h : makeRunnable horizon s = .ok runnable s') (c : Config) :
    makeRunnable horizon (s.under c) = .ok runnable (s'.under c) := by
  refine MakesRunnable.eq ?_
  cases makesRunnable_of_eq h with
  | already hready => exact .already hready
  | moved timer hidle hhead hallows => exact .moved timer hidle hhead hallows
  | idle hidle hbeyond => exact .idle hidle hbeyond

variable [Process π] [Condition κ]

omit [Process π] [Condition κ] in
/-- An act without an answer is known when its end is. -/
theorem act_eq_of_ended {act act' : Act π κ Unit} {s s' : Engine π κ}
    (h : ended act s = ended act' s') : act s = act' s' := by
  cases hact : act' s' with
  | ok a s₁ =>
    rw [ended, ended, hact] at h
    exact (ok_of_ended h).choose_spec
  | error stop s₁ =>
    rw [ended, ended, hact] at h
    exact error_of_ended h

/-- An act without a drive and without an answer comes to the same under a configuration that suits it. -/
theorem act_under {act : Act π κ Unit} {jobs : List Job} (hunfolds : ∀ s, Unfolds jobs s (act s))
    (hdrive : ∀ job ∈ jobs, ¬job.IsDrive) (h : c.Suits s.config (stopOf? (act s))) :
    act (s.under c) = resultUnder c (act s) := by
  have hended : (ended act s).under c = ended (fun s => resultUnder c (act s)) s := by
    unfold ended
    dsimp only
    cases act s <;> rfl
  exact act_eq_of_ended ((ended_under hunfolds hdrive h).trans hended)

/-- A tick comes to the same under a configuration that suits it. -/
theorem tick_under (h : c.Suits s.config (stopOf? (tick s))) :
    tick (s.under c) = resultUnder c (tick s) := by
  let batch := (s.queue ++ s.clock.takeDue.1).toList
  let s₀ : Engine π κ := { s with clock := s.clock.takeDue.2, queue := #[] }
  have hbatch := act_under (c := c) (s := s₀) (unfolds_runBatch batch)
    (List.forall_mem_singleton.2 fun hdrive => hdrive)
  rw [tick_eq] at h ⊢
  rw [tick_eq]
  show (runBatch batch >>= fun _ => pure batch.length : Act π κ Nat) (s₀.under c) = _
  cases hrun : runBatch batch s₀ with
  | ok _ s' =>
    rw [bind_of_ok hrun] at h ⊢
    rw [hrun] at hbatch
    exact bind_of_ok (hbatch h)
  | error stop s' =>
    rw [bind_of_error hrun] at h ⊢
    rw [hrun] at hbatch
    exact bind_of_error (hbatch h)

/-! ## Drives under another configuration -/

/-- What a drive comes to, seen under another configuration, the limit it names included. -/
def relimited {α : Type} (c : Config) :
    EStateM.Result Stop (Engine π κ) α → EStateM.Result Stop (Engine π κ) α
  | .error (.failed (.tickBudgetExhausted _)) s =>
    .error (.failed (.tickBudgetExhausted c.maxTicks)) (s.under c)
  | result => resultUnder c result

omit [Process π] [Condition κ] in
/-- A failure other than running out of ticks is the same under other limits. -/
theorem relimited_error {α : Type} {stop : Stop}
    (h : ∀ limit, stop ≠ .failed (.tickBudgetExhausted limit)) (s : Engine π κ) :
    relimited c (.error stop s : EStateM.Result Stop (Engine π κ) α) = .error stop (s.under c) := by
  unfold relimited
  split
  · rename_i heq
    cases heq
    exact absurd rfl (h _)
  · rfl

omit [Process π] [Condition κ] in
/-- What is made of the answer has no part in this. -/
theorem relimited_map {α β : Type} {x y : Act π κ α} {s' : Engine π κ} (f : α → β)
    (h : x s' = relimited c (y s)) :
    (x >>= fun a => pure (f a)) s' = relimited c ((y >>= fun a => pure (f a)) s) := by
  cases hy : y s with
  | ok a s₁ =>
    rw [hy] at h
    rw [bind_of_ok hy]
    exact bind_of_ok h
  | error stop s₁ =>
    rw [hy] at h
    rw [bind_of_error hy]
    by_cases hstop : ∃ limit, stop = .failed (.tickBudgetExhausted limit)
    · obtain ⟨limit, rfl⟩ := hstop
      exact bind_of_error h
    · have hother : ∀ limit, stop ≠ .failed (.tickBudgetExhausted limit) := not_exists.1 hstop
      rw [relimited_error hother] at h ⊢
      exact bind_of_error h

/-- A tick has no budget. -/
theorem tick_ne_exhausted {stop : Stop} {s' : Engine π κ} (h : tick s = .error stop s') (limit : Nat) :
    stop ≠ .failed (.tickBudgetExhausted limit) := by
  have hcomes := (unfolds_tick s).comes
  rw [ended, h] at hcomes
  exact fun hstop => stop_ne_exhausted (List.forall_mem_singleton.2 id) hcomes rfl limit
    (congrArg some hstop)

/-- A drive with a given budget comes to the same under a configuration that suits it, but for the limit
that it names when the budget is spent. -/
theorem drive_under {horizon : Horizon} {budget : Nat}
    (h : c.Suits s.config (stopOf? (drive horizon budget s))) :
    drive horizon budget (s.under c) = relimited c (drive horizon budget s) := by
  induction budget generalizing s with
  | zero =>
    rcases makeRunnable_cases horizon s with ⟨s₁, hrunnable⟩ | hidle
    · rw [drive_zero_of_runnable hrunnable,
        drive_zero_of_runnable (makeRunnable_under hrunnable c)]
      rfl
    · rw [drive_of_idle hidle, drive_of_idle (makeRunnable_under hidle c)]
      rfl
  | succ budget ih =>
    rcases makeRunnable_cases horizon s with ⟨s₁, hrunnable⟩ | hidle
    · have hconfig : s₁.config = s.config := (SameWiring.of_makeRunnable hrunnable).config
      rw [drive_succ_of_runnable hrunnable] at h ⊢
      rw [drive_succ_of_runnable (makeRunnable_under hrunnable c)]
      have hunder := tick_under (c := c) (s := s₁)
      rw [hconfig] at hunder
      cases htick : tick s₁ with
      | error stop s₂ =>
        rw [bind_of_error htick] at h ⊢
        rw [htick] at hunder
        rw [bind_of_error (hunder h), relimited_error (tick_ne_exhausted htick)]
      | ok count s₂ =>
        rw [bind_of_ok htick] at h ⊢
        rw [htick] at hunder
        rw [bind_of_ok (hunder h.of_none)]
        exact ih (((tick_eq_ok htick).1.trans hconfig).symm ▸ h)
    · rw [drive_of_idle hidle, drive_of_idle (makeRunnable_under hidle c)]
      rfl

end Engine

end Dataflow
