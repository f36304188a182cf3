import Dataflow.Leaf.Catalogue
import Dataflow.Proofs.Endings
import Dataflow.Proofs.Probed
import Dataflow.Proofs.Routing
import Dataflow.Proofs.WallClock

/-!
# Delays and the end of time

A point in time is representable up to a limit, and so is a delay. The time itself, every deadline and
the end of every drive stay below the limit, however a graph is used (`timely_operateAll`). A delay that
is asked for is added to the time, and the sum may be beyond the limit; then the act stops for good. A
leaf that delays knows nothing of the time, and refuses only what is beyond the limit by itself. So a
graph of the catalogue overflows exactly when such a leaf is given an input too late for its delay
(`delays_overflow_exactly`).
-/

namespace Dataflow

open Moment

/-! ## The limit is kept -/

namespace Engine

variable {π κ : Type} {s s' : Engine π κ}

/-- The time and all deadlines are representable. -/
structure Timely (s : Engine π κ) : Prop where
  now : s.clock.now < Duration.limit
  pending : s.Representable

/-- Whether a time is representable depends on the clock alone. -/
theorem Timely.of_clock (h : s.Timely) (hclock : s'.clock = s.clock) : s'.Timely :=
  ⟨hclock ▸ h.now, fun timer htimer => h.pending timer (hclock ▸ htimer)⟩

/-- Time may be moved to whatever is representable. -/
theorem Timely.advanceTo (h : s.Timely) {time : Nat} (htime : time < Duration.limit) :
    Timely { s with clock := s.clock.advanceTo time } :=
  ⟨Nat.max_lt.2 ⟨h.now, htime⟩, h.pending⟩

/-- Time is moved to a deadline, which was representable when it was set. -/
theorem Timely.makeRunnable {horizon : Horizon} {runnable : Bool} (h : s.Timely)
    (hrunnable : makeRunnable horizon s = .ok runnable s') : s'.Timely := by
  cases makesRunnable_of_eq hrunnable with
  | moved timer _ hhead => exact h.advanceTo (h.pending timer (List.mem_of_head? hhead))
  | _ => exact h

end Engine

/-- Whether the end of a drive is representable. -/
def Job.Timely : Job → Prop
  | .drive (.upTo time) _ => time < Duration.limit
  | _ => True

/-- Only a drive has an end to aim at. -/
theorem Job.timely_of_not_isDrive {job : Job} (h : ¬job.IsDrive) : job.Timely := by
  cases job with
  | drive => exact absurd trivial h
  | _ => trivial

section

variable {π κ : Type} {s s' : Engine π κ} {job : Job}

/-- A job that begins keeps the time and all deadlines representable. -/
theorem Job.Begins.timely {jobs : List Job} (h : job.Begins s jobs s') (hs : s.Timely)
    (hjob : job.Timely) : s'.Timely ∧ ∀ j ∈ jobs, j.Timely := by
  cases h with
  | entered => exact ⟨hs.of_clock rfl, List.forall_mem_cons.2 ⟨trivial, List.forall_mem_singleton.2 trivial⟩⟩
  | propagated _ _ hstill hjobs =>
    exact ⟨hs.of_clock hstill.clock, fun j hj =>
      timely_of_not_isDrive (hjobs j hj).isCall.not_isDrive⟩
  | sent _ hstill => exact ⟨⟨hstill.clock ▸ hs.now, hstill.clock ▸ hs.pending⟩, List.forall_mem_nil _⟩
  | scheduled hclock =>
    obtain ⟨hlimit, rfl⟩ := Clock.schedule?_eq_some_iff.1 hclock
    refine ⟨⟨hs.now, fun timer htimer => ?_⟩, List.forall_mem_nil _⟩
    rcases Clock.mem_insert.1 htimer with rfl | htimer
    · exact hlimit
    · exact hs.pending timer htimer
  | batched task tasks =>
    refine ⟨hs, List.forall_mem_append.2 ⟨fun j hj => ?_, List.forall_mem_singleton.2 trivial⟩⟩
    exact timely_of_not_isDrive (task.isCall_jobs j hj).not_isDrive
  | ticked =>
    exact ⟨⟨hs.now, fun timer htimer => hs.pending timer ((List.dropWhile_sublist _).mem htimer)⟩,
      List.forall_mem_singleton.2 trivial⟩
  | @driven horizon budget _ hrunnable =>
    -- A drive that goes on aims where it did.
    have hlater : (Job.drive horizon budget).Timely := by cases horizon <;> exact hjob
    exact ⟨hs.makeRunnable hrunnable,
      List.forall_mem_cons.2 ⟨trivial, List.forall_mem_singleton.2 hlater⟩⟩
  | @rested horizon _ _ =>
    refine ⟨?_, List.forall_mem_nil _⟩
    cases horizon with
    | upTo time => exact hs.advanceTo hjob
    | _ => exact hs
  | _ => exact ⟨⟨hs.now, hs.pending⟩, List.forall_mem_nil _⟩

/-- A job that fails keeps the time and all deadlines representable. -/
theorem Job.Fails.timely {stop : Stop} (h : job.Fails s stop s') (hs : s.Timely) : s'.Timely := by
  cases h with
  | tooDeep => exact hs
  | propagated _ _ hstill => exact hs.of_clock hstill.clock
  | exhausted hrunnable => exact hs.makeRunnable hrunnable

end

section

variable {π κ : Type} {m m' : Moment π κ}

/-- The time, all deadlines and the ends of all drives are representable. -/
structure Moment.Timely (m : Moment π κ) : Prop where
  engine : m.engine.Timely
  todo : ∀ job ∈ m.todo, job.Timely

variable [Process π] [Condition κ]

/-- Every step keeps all times representable. -/
theorem Moment.Timely.next (h : m.Timely) (hnext : m.next? = some m') : m'.Timely := by
  obtain ⟨job, rest, htodo, hcases⟩ := next?_cases hnext
  have hjobs := h.todo
  rw [htodo] at hjobs
  obtain ⟨hjob, hrest⟩ := List.forall_mem_cons.1 hjobs
  rcases hcases with ⟨jobs, s', hbegins, rfl⟩ | ⟨stop, s', hfails, rfl⟩
  · obtain ⟨hs', hjobs'⟩ := hbegins.timely h.engine hjob
    exact ⟨hs', List.forall_mem_append.2 ⟨hjobs', hrest⟩⟩
  · exact ⟨(hfails.timely h.engine).of_clock (clock_unwind rest s'), List.forall_mem_nil _⟩

/-- However far it comes, all times stay representable. -/
theorem Moment.Timely.comes (h : m.Timely) (hcomes : Comes m m') : m'.Timely := by
  induction hcomes with
  | refl => exact h
  | tail _ hnext ih => exact ih.next hnext

namespace Graph

omit [Process π] [Condition κ] in
/-- However an operation begins, it aims at no time that is not representable. -/
theorem timely_begin (root : SlotId) (op : Operation) {s : Engine π κ} (hs : s.Timely) :
    (begin root op s).Timely := by
  cases op with
  | advanceBy span =>
    rw [begin, advancing, Duration.add?]
    split
    · exact ⟨hs, List.forall_mem_nil _⟩
    · rename_i target htarget
      refine ⟨hs, List.forall_mem_singleton.2 ?_⟩
      split at htarget
      · cases htarget
        assumption
      · cases htarget
  | tap slot =>
    rw [begin, ended, tap, addListener_eq]
    cases s.arena.get? slot <;> exact ⟨hs.of_clock rfl, List.forall_mem_nil _⟩
  | takeOutputs => exact ⟨hs.of_clock rfl, List.forall_mem_nil _⟩
  | takeRendered => exact ⟨hs.of_clock rfl, List.forall_mem_nil _⟩
  | _ => exact ⟨hs, List.forall_mem_singleton.2 trivial⟩

/-- **Time never passes the limit.** In every reachable state of a built graph the time and all deadlines
are representable. -/
theorem timely_operateAll {registry : Registry π κ} {config : Config} {spec : SpecNode} {g : Graph π κ}
    (hbuild : build registry config spec = .ok g) (ops : List Operation) :
    (g.operateAll ops).2.engine.Timely := by
  obtain ⟨wired, hassemble, -⟩ := build_eq_ok_iff.1 hbuild
  obtain ⟨ds, m, hstory, -, hengine⟩ := (story_of_build hassemble hbuild ops).1
  have hstart : (activation config wired).Timely := by
    have hzero : 0 < Duration.limit := by decide
    refine ⟨⟨hzero, fun timer htimer => absurd htimer List.not_mem_nil⟩, fun job hjob => ?_⟩
    obtain ⟨slot, -, rfl⟩ := List.mem_map.1 hjob
    trivial
  have htimely : m.Timely := hstory.invariant hstart (fun _ _ h hnext => h.next hnext)
    fun op _ h _ => timely_begin g.root op h.engine
  exact hengine ▸ htimely.engine

end Graph

end

/-! ## Leaves that put off -/

namespace CatalogueProcess

/-- How the leaves of the catalogue answer an input. Only delays and stores put something off, and only
delays refuse a delay. -/
inductive Answers (input : Value) :
    CatalogueProcess → Option Value → Except LeafError (List Effect) → Prop
  | emits {p : CatalogueProcess} {state? : Option Value} (value : Value) :
    Answers input p state? (.ok [.emit value])
  | renders {p : CatalogueProcess} {state? : Option Value} (value : Value) :
    Answers input p state? (.ok [.render value])
  | stores {state? : Option Value} : Answers input store state? (.ok [.emitAfter 0 input])
  | waits {milliseconds : Float} {span : Nat}
    (hspan : Duration.ofSeconds? (milliseconds / 1000) = some span) :
    Answers input delay (some (.number milliseconds)) (.ok [.emitAfter span input])
  | tooLong {milliseconds : Float} (hnone : Duration.ofSeconds? (milliseconds / 1000) = none) :
    Answers input delay (some (.number milliseconds)) (.error (.invalidDelay milliseconds))
  | refuses {p : CatalogueProcess} {state? : Option Value} {cause : LeafError}
    (hother : ∀ milliseconds, cause ≠ .invalidDelay milliseconds) :
    Answers input p state? (.error cause)

/-- A delay reads its state as milliseconds. -/
theorem effects_delay (input : Value) (milliseconds : Float) :
    delay.effects input (some (.number milliseconds)) =
      match Duration.ofSeconds? (milliseconds / 1000) with
      | some span => .ok [.emitAfter span input]
      | none => .error (.invalidDelay milliseconds) := rfl

/-- Every leaf of the catalogue answers in one of these ways. -/
theorem answers_effects (p : CatalogueProcess) (input : Value) (state? : Option Value) :
    Answers input p state? (p.effects input state?) := by
  have hmissing : ∀ leaf milliseconds, LeafError.missingState leaf ≠ .invalidDelay milliseconds :=
    fun _ _ h => by cases h
  have hnumber : ∀ leaf role found milliseconds,
      LeafError.notANumber leaf role found ≠ .invalidDelay milliseconds := fun _ _ _ _ h => by cases h
  cases p with
  | get => exact .emits input
  | render => exact .renders input
  | store => exact .stores
  | pass | set =>
    cases state? with
    | some v => exact .emits v
    | none => exact .refuses (hmissing _)
  | delay =>
    cases state? with
    | none => exact .refuses (hmissing _)
    | some v =>
      cases v with
      | number milliseconds =>
        rw [effects_delay]
        cases hspan : Duration.ofSeconds? (milliseconds / 1000) with
        | some span => exact .waits hspan
        | none => exact .tooLong hspan
      | _ => exact .refuses (hnumber _ _ _)
  | add =>
    cases input with
    | number a =>
      cases state? with
      | none => exact .refuses (hmissing _)
      | some v =>
        cases v with
        | number b => exact .emits (.number (a + b))
        | _ => exact .refuses (hnumber _ _ _)
    | _ => exact .refuses (hnumber _ _ _)

/-- A leaf that puts something off asks for nothing else. What a store puts off, it puts off by no time. -/
theorem Answers.of_emitAfter {p : CatalogueProcess} {input value : Value} {state? : Option Value}
    {effects : List Effect} {span : Nat} (h : Answers input p state? (.ok effects))
    (hmem : .emitAfter span value ∈ effects) :
    effects = [.emitAfter span input] ∧ (span = 0 ∨ p = delay ∧ ∃ milliseconds,
      state? = some (.number milliseconds) ∧ Duration.ofSeconds? (milliseconds / 1000) = some span) := by
  cases h with
  | emits => cases List.mem_singleton.1 hmem
  | renders => cases List.mem_singleton.1 hmem
  | stores =>
    cases List.mem_singleton.1 hmem
    exact ⟨rfl, .inl rfl⟩
  | @waits milliseconds _ hspan =>
    cases List.mem_singleton.1 hmem
    exact ⟨rfl, .inr ⟨rfl, milliseconds, rfl, hspan⟩⟩

end CatalogueProcess

/-- Conditions of the catalogue refuse no delay. -/
theorem CatalogueCondition.test_ne_invalidDelay (c : CatalogueCondition) (input : Value)
    (state? : Option Value) (milliseconds : Float) :
    Condition.test c input state? ≠ .error (.invalidDelay milliseconds) := by
  intro h
  cases c with
  | under =>
    cases state? with
    | none => cases h
    | some v => cases input <;> cases v <;> cases h

/-- No condition that is asked for a branch refuses a delay. -/
theorem Engine.answer_ne_invalidDelay (s : Engine CatalogueProcess CatalogueCondition) (input : Value)
    (slot : SlotId) (kind : String) (milliseconds : Float) :
    s.answer input slot ≠ .error (.leaf kind (.invalidDelay milliseconds)) := by
  intro h
  unfold Engine.answer at h
  cases hget : s.arena.get? slot with
  | none =>
    rw [hget] at h
    cases h
  | some node =>
    obtain ⟨nodeKind, input?, state?, outputs⟩ := node
    rw [hget] at h
    unfold Node.answer at h
    cases nodeKind with
    | condition name leaf =>
      dsimp only at h
      cases htest : Condition.test leaf input state? with
      | ok holds =>
        rw [htest] at h
        cases h
      | error cause =>
        rw [htest] at h
        cases h
        exact leaf.test_ne_invalidDelay input state? milliseconds htest
    | constant value => cases value <;> cases h
    | _ => cases h

/-! ## What is put off -/

namespace Job

open Engine

/-- Whether a job is to put a value off. -/
def PutsOff : Job → Prop
  | .carryOut _ (.emitAfter ..) => True
  | _ => False

variable {π κ : Type} {s s' : Engine π κ} {job j : Job} {jobs : List Job}

/-- Only an input of a process leads to a value being put off. -/
theorem Begins.handle_of_putsOff (h : job.Begins s jobs s') (hj : j ∈ jobs) (hoff : j.PutsOff) :
    ∃ slot input node kind leaf, job = .handle slot input ∧ s.arena.get? slot = some node ∧
      node.kind = .process kind leaf := by
  cases h with
  | entered =>
    rcases List.mem_cons.1 hj with rfl | hj
    · exact hoff.elim
    · cases List.mem_singleton.1 hj
      exact hoff.elim
  | propagated _ _ _ hjobs =>
    cases hjobs j hj with
    | request effect hget hkind => exact ⟨_, _, _, _, _, rfl, hget, hkind⟩
    | _ => exact hoff.elim
  | batched task tasks =>
    rcases List.mem_append.1 hj with hj | hj
    · cases task with
      | deliver channel listeners value =>
        obtain ⟨listener, -, rfl⟩ := List.mem_map.1 hj
        exact hoff.elim
      | emit slot value =>
        cases List.mem_singleton.1 hj
        exact hoff.elim
    · cases List.mem_singleton.1 hj
      exact hoff.elim
  | ticked =>
    cases List.mem_singleton.1 hj
    exact hoff.elim
  | driven =>
    rcases List.mem_cons.1 hj with rfl | hj
    · exact hoff.elim
    · cases List.mem_singleton.1 hj
      exact hoff.elim
  | _ => exact absurd hj List.not_mem_nil

variable [Process π] [Condition κ]

/-- An input of a process leads to what its leaf asks for. -/
theorem start_handle_process {slot : SlotId} {node : Node π κ} {kind : String} {leaf : π}
    (hget : s.arena.get? slot = some node) (hkind : node.kind = .process kind leaf) (input : Value) :
    ∃ s', s'.clock = s.clock ∧ (Job.handle slot input).start s =
      match (Process.run leaf input node.state?).outcome with
      | .ok effects => .ok (effects.map (.carryOut slot)) s'
      | .error cause => .error (.failed (.leaf kind cause)) s' := by
  obtain ⟨_, input?, state?, outputs⟩ := node
  obtain rfl : _ = NodeKind.process kind leaf := hkind
  have hstart : (Job.handle slot input).start s = startHandle slot input s := rfl
  obtain ⟨log, htraced⟩ := traced_eq (.input slot (NodeKind.process kind leaf : NodeKind π κ).name input) s
  rw [startHandle, node?_bind, hget] at hstart
  dsimp only at hstart
  rw [trace_bind, htraced, setNode_bind, setNode_bind, bind_of_ok (announce_eq _)] at hstart
  generalize hran : announcing _ _ = s' at hstart
  refine ⟨s', by rw [← hran]; rfl, ?_⟩
  rw [hstart]
  dsimp only
  cases (Process.run leaf input state?).outcome <;> rfl

end Job

/-! ### Jobs that ask no leaf -/

namespace Engine

variable {π κ : Type} {α β : Type}

/-- The act asks no leaf, so none refuses anything. -/
def AsksNone (act : Act π κ α) : Prop :=
  ∀ (s : Engine π κ) (stop : Stop) (s' : Engine π κ), act s = .error stop s' → ¬stop.IsRefusal

namespace AsksNone

/-- An act that always succeeds asks no leaf. -/
theorem of_ok {act : Act π κ α} (h : ∀ s, ∃ a s', act s = .ok a s') : AsksNone act := by
  intro s stop s' hact
  obtain ⟨a, s₁, hok⟩ := h s
  rw [hok] at hact
  cases hact

/-- To answer asks no leaf. -/
theorem pure (a : α) : AsksNone (Pure.pure a : Act π κ α) := of_ok fun s => ⟨a, s, rfl⟩

/-- Two acts in a row ask no leaf if neither does. -/
theorem bind {x : Act π κ α} {f : α → Act π κ β} (hx : AsksNone x) (hf : ∀ a, AsksNone (f a)) :
    AsksNone (x >>= f) := by
  intro s stop s' hact
  cases h : x s with
  | ok a s₁ =>
    rw [bind_of_ok h] at hact
    exact hf a s₁ stop s' hact
  | error stop₁ s₁ =>
    rw [bind_of_error h] at hact
    cases hact
    exact hx s stop s' h

/-- Looking at a node asks no leaf. -/
theorem node? (slot : SlotId) : AsksNone (Engine.node? slot : Act π κ _) := of_ok fun _ => ⟨_, _, rfl⟩

/-- Reporting asks no leaf. -/
theorem report (event : Event) : AsksNone (Engine.report event : Act π κ Unit) :=
  of_ok fun _ => ⟨_, _, rfl⟩

/-- Reporting a hop asks no leaf. -/
theorem trace (hop : Hop) : AsksNone (Engine.trace hop : Act π κ Unit) :=
  of_ok fun _ => ⟨_, _, trace_eq hop⟩

/-- Storing a state asks no leaf. -/
theorem setState (slot : SlotId) (value : Value) :
    AsksNone (Engine.setState slot value : Act π κ Unit) := by
  refine (node? slot).bind fun node? => ?_
  cases node? with
  | some node => exact (trace _).bind fun _ => of_ok fun _ => ⟨_, _, rfl⟩
  | none => exact report _

end AsksNone

end Engine

namespace Job

open Engine

variable {π κ : Type} {s s' : Engine π κ} {job : Job}

/-- Passing an output on asks no leaf. -/
theorem asksNone_startRelay (hops : Nat) (slot : SlotId) (value : Value) :
    AsksNone (startRelay hops slot value : Act π κ _) := by
  cases hops with
  | zero =>
    intro s stop s' hact
    cases hact
    exact id
  | succ hops =>
    refine (AsksNone.node? slot).bind fun node? => ?_
    cases node? with
    | some node => exact (AsksNone.trace _).bind fun _ => .pure _
    | none => exact (AsksNone.report _).bind fun _ => .pure _

/-- Delivering asks no leaf: a leaf is asked when its input is handled. -/
theorem asksNone_startDeliver (hops : Nat) (value : Value) (listener : Listener) :
    AsksNone (startDeliver hops value listener : Act π κ _) := by
  cases listener with
  | state slot => exact (AsksNone.setState slot value).bind fun _ => .pure _
  | broadcast id =>
    exact (AsksNone.of_ok fun s => ⟨_, _, send_eq id value s⟩).bind fun _ => .pure _
  | sink => exact .of_ok fun _ => ⟨_, _, rfl⟩
  | _ => exact .pure _

/-- Carrying out what a leaf asked for asks none. -/
theorem asksNone_startCarryOut (slot : SlotId) (effect : Effect) :
    AsksNone (startCarryOut slot effect : Act π κ _) := by
  cases effect with
  | emit value => exact .of_ok fun _ => ⟨_, _, rfl⟩
  | emitAfter delay value =>
    intro s stop s' hact
    unfold startCarryOut at hact
    dsimp only at hact
    split at hact
    · cases hact
    · cases hact
      exact id
  | render value => exact (AsksNone.trace _).bind fun _ => .of_ok fun _ => ⟨_, _, rfl⟩

/-- Sending out a constant asks no leaf. -/
theorem asksNone_startKindle (slot : SlotId) : AsksNone (startKindle slot : Act π κ _) := by
  refine (AsksNone.node? slot).bind fun node? => ?_
  rcases node? with - | ⟨kind, input?, state?, outputs⟩
  · exact .pure _
  · cases kind <;> exact .pure _

variable [Process π] [Condition κ]

/-- Only a leaf that is given an input refuses anything, or a condition that is asked for a branch. -/
theorem handle_or_route_of_refusal {stop : Stop} (h : job.start s = .error stop s')
    (hstop : stop.IsRefusal) :
    (∃ slot input, job = .handle slot input) ∨ ∃ slot input, job = .route slot input := by
  cases fails_of_start h with
  | tooDeep | exhausted => exact hstop.elim
  | propagated hjob =>
    cases job with
    | handle slot input => exact .inl ⟨slot, input, rfl⟩
    | route slot input => exact .inr ⟨slot, input, rfl⟩
    | relay hops slot value => exact absurd hstop (asksNone_startRelay hops slot value s stop s' h)
    | deliver hops listener value => exact absurd hstop (asksNone_startDeliver hops value listener s stop s' h)
    | hand listener value => cases listener <;> cases h
    | carryOut slot effect => exact absurd hstop (asksNone_startCarryOut slot effect s stop s' h)
    | kindle slot => exact absurd hstop (asksNone_startKindle slot s stop s' h)
    | _ => exact hjob.elim

/-- A choice of a branch fails as one of the conditions does that it asks. -/
theorem exists_answer_of_route {slot : SlotId} {input : Value} {stop : Stop}
    (h : (Job.route slot input).start s = .error stop s') :
    ∃ condition e, s.answer input condition = .error e ∧ stop = .failed e := by
  have hstart : startRoute slot input s = .error stop s' := h
  rw [startRoute, node?_bind] at hstart
  cases hget : s.arena.get? slot with
  | none =>
    rw [hget] at hstart
    cases hstart
  | some node =>
    obtain ⟨kind, input?, state?, outputs⟩ := node
    rw [hget] at hstart
    cases kind with
    | conditional conditions positive negative? =>
      dsimp only at hstart
      obtain ⟨slots, verdict, s₁, hverdict, -, hall⟩ := allHold_verdict s input conditions
      cases verdict with
      | error e =>
        rw [bind_of_error hall] at hstart
        cases hstart
        cases hverdict with
        | failed _ _ hanswer => exact ⟨_, e, hanswer, rfl⟩
      | ok matched =>
        rw [bind_of_ok hall, trace_bind] at hstart
        cases matched with
        | true => cases hstart
        | false => cases negative? <;> cases hstart
    | _ => cases hstart

/-- An input fails as the leaf does that it is given to. -/
theorem exists_leaf_of_handle {slot : SlotId} {input : Value} {stop : Stop}
    (h : (Job.handle slot input).start s = .error stop s') :
    ∃ node kind cause, s.arena.get? slot = some node ∧ stop = .failed (.leaf kind cause) ∧
      ((∃ leaf, node.kind = .process kind leaf ∧
          (Process.run leaf input node.state?).outcome = .error cause) ∨
        ∃ leaf, node.kind = .condition kind leaf ∧
          Condition.test leaf input node.state? = .error cause) := by
  have hstart : startHandle slot input s = .error stop s' := h
  rw [startHandle, node?_bind] at hstart
  cases hget : s.arena.get? slot with
  | none =>
    rw [hget] at hstart
    cases hstart
  | some node =>
    obtain ⟨kind, input?, state?, outputs⟩ := node
    rw [hget] at hstart
    dsimp only at hstart
    rw [trace_bind, setNode_bind] at hstart
    cases kind with
    | process kind leaf =>
      obtain ⟨s₁, -, hprocess⟩ := start_handle_process hget rfl input
      rw [h] at hprocess
      cases houtcome : (Process.run leaf input state?).outcome with
      | ok effects =>
        rw [houtcome] at hprocess
        cases hprocess
      | error cause =>
        rw [houtcome] at hprocess
        cases hprocess
        exact ⟨_, kind, cause, rfl, rfl, .inl ⟨leaf, rfl, houtcome⟩⟩
    | condition kind leaf =>
      dsimp only at hstart
      cases htest : Condition.test leaf input state? with
      | ok holds =>
        rw [htest] at hstart
        cases hstart
      | error cause =>
        rw [htest] at hstart
        cases hstart
        exact ⟨_, kind, cause, rfl, rfl, .inr ⟨leaf, rfl, htest⟩⟩
    -- Nodes of the other kinds run no leaf, and to hand them an input does not fail.
    | _ => cases hstart

/-- What a store or a delay puts off is all that an input of it leads to. -/
theorem start_putsOff {s s' : Engine CatalogueProcess CatalogueCondition} {jobs : List Job}
    (h : job.start s = .ok jobs s') (hoff : ∃ j ∈ jobs, j.PutsOff) :
    ∃ slot input node kind leaf span, job = .handle slot input ∧ s.arena.get? slot = some node ∧
      node.kind = .process kind leaf ∧ jobs = [.carryOut slot (.emitAfter span input)] ∧
      s'.clock = s.clock ∧ (span = 0 ∨ leaf = .delay ∧ ∃ milliseconds,
        node.state? = some (.number milliseconds) ∧
        Duration.ofSeconds? (milliseconds / 1000) = some span) := by
  obtain ⟨j, hj, hoff⟩ := hoff
  obtain ⟨slot, input, node, kind, leaf, rfl, hget, hkind⟩ :=
    (begins_of_start h).handle_of_putsOff hj hoff
  obtain ⟨s₁, hclock, hstart⟩ := start_handle_process hget hkind input
  have houtcome : (Process.run leaf input node.state?).outcome = leaf.effects input node.state? := rfl
  have hanswers := leaf.answers_effects input node.state?
  rw [h, houtcome] at hstart
  generalize leaf.effects input node.state? = outcome at hanswers hstart
  cases outcome with
  | error cause => cases hstart
  | ok effects =>
    cases hstart
    obtain ⟨effect, heffect, rfl⟩ := List.mem_map.1 hj
    cases effect with
    | emitAfter span value =>
      obtain ⟨rfl, hspan⟩ := hanswers.of_emitAfter heffect
      exact ⟨slot, input, node, kind, leaf, span, rfl, hget, hkind, rfl, hclock, hspan⟩
    | _ => exact hoff.elim

/-- Only a delay refuses a delay. -/
theorem handle_of_invalidDelay {s s' : Engine CatalogueProcess CatalogueCondition} {kind : String}
    {milliseconds : Float}
    (h : job.start s = .error (.failed (.leaf kind (.invalidDelay milliseconds))) s') :
    ∃ slot input node, job = .handle slot input ∧ s.arena.get? slot = some node ∧
      node.kind = .process kind .delay ∧ node.state? = some (.number milliseconds) ∧
      Duration.ofSeconds? (milliseconds / 1000) = none := by
  -- What refuses is a leaf: one that is run, one that is tested, or one that a conditional asks.
  rcases handle_or_route_of_refusal h trivial with ⟨slot, input, rfl⟩ | ⟨slot, input, rfl⟩
  · obtain ⟨node, kind', cause, hget, hstop, ⟨leaf, hkind, houtcome⟩ | ⟨leaf, hkind, htest⟩⟩ :=
      exists_leaf_of_handle h
    · cases hstop
      have hanswers : leaf.Answers input node.state? (.error (.invalidDelay milliseconds)) :=
        houtcome ▸ leaf.answers_effects input node.state?
      generalize hstate : node.state? = state? at hanswers
      cases hanswers with
      | tooLong hnone => exact ⟨slot, input, node, rfl, hget, hkind, hstate, hnone⟩
      | refuses hother => exact absurd rfl (hother milliseconds)
    · cases hstop
      exact absurd htest (leaf.test_ne_invalidDelay input node.state? milliseconds)
  · obtain ⟨condition, e, hanswer, hstop⟩ := exists_answer_of_route h
    cases hstop
    exact absurd hanswer (answer_ne_invalidDelay s input condition kind milliseconds)

end Job

namespace Moment

open Engine CatalogueProcess

variable {start m m' : Moment CatalogueProcess CatalogueCondition} {kind : String} {milliseconds : Float}

/-- A delay is about to be given an input, with the given number as its state. -/
def Delays (m : Moment CatalogueProcess CatalogueCondition) (kind : String) (milliseconds : Float) :
    Prop :=
  ∃ slot input rest node, m.todo = .handle slot input :: rest ∧
    m.engine.arena.get? slot = some node ∧ node.kind = .process kind delay ∧
    node.state? = some (.number milliseconds)

/-! ### Delays beyond the limit by themselves -/

/-- A delay that is not representable by itself is refused. -/
theorem Delays.refused (h : m.Delays kind milliseconds)
    (hnone : Duration.ofSeconds? (milliseconds / 1000) = none) :
    ∃ m', Comes m m' ∧ m'.todo = [] ∧
      m'.stop? = some (.failed (.leaf kind (.invalidDelay milliseconds))) := by
  obtain ⟨s, todo, stop?⟩ := m
  obtain ⟨slot, input, rest, node, rfl, hget, hkind, hstate⟩ := h
  obtain ⟨s', -, hstart⟩ := Job.start_handle_process hget hkind input
  have houtcome : (Process.run delay input node.state?).outcome =
      .error (.invalidDelay milliseconds) := by
    show delay.effects input node.state? = _
    rw [hstate, effects_delay, hnone]
  rw [houtcome] at hstart
  exact ⟨_, .single (next?_of_error hstart), rfl, rfl⟩

/-- A delay is refused only if it is not representable by itself. -/
theorem exists_delays_of_refused (hcomes : Comes start m) (hstart : start.stop? = none)
    (hstop : m.stop? = some (.failed (.leaf kind (.invalidDelay milliseconds)))) :
    ∃ before, Comes start before ∧ before.Delays kind milliseconds ∧
      Duration.ofSeconds? (milliseconds / 1000) = none := by
  rcases hcomes.cases_tail with heq | ⟨before, hbefore, hnext⟩
  · rw [heq, hstart] at hstop
    cases hstop
  · obtain ⟨s, todo, stop?⟩ := before
    cases todo with
    | nil => cases hnext
    | cons job rest =>
      cases hbegins : job.start s with
      | ok jobs s' =>
        cases (next?_of_ok hbegins).symm.trans hnext
        cases hstop
      | error stop s' =>
        cases (next?_of_error hbegins).symm.trans hnext
        cases hstop
        obtain ⟨slot, input, node, rfl, hget, hkind, hstate, hnone⟩ :=
          Job.handle_of_invalidDelay hbegins
        exact ⟨_, hbefore, ⟨slot, input, rest, node, rfl, hget, hkind, hstate⟩, hnone⟩

/-! ### Delays beyond the limit from now on -/

/-- What is to be put off is next. -/
def Prompt (m : Moment CatalogueProcess CatalogueCondition) : Prop := ∀ job ∈ m.todo.tail, ¬job.PutsOff

/-- The next moment, when nothing puts a value off but the job that begins. -/
theorem Prompt.next (h : m.Prompt) (hnext : m.next? = some m') :
    m'.Prompt ∧ ∀ slot span value rest, m'.todo = .carryOut slot (.emitAfter span value) :: rest →
      m'.engine.clock = m.engine.clock ∧ (span = 0 ∨ ∃ kind milliseconds,
        m.Delays kind milliseconds ∧ Duration.ofSeconds? (milliseconds / 1000) = some span) := by
  obtain ⟨s, todo, stop?⟩ := m
  cases todo with
  | nil => cases hnext
  | cons job rest =>
    have hrest : ∀ j ∈ rest, ¬j.PutsOff := h
    cases hstart : job.start s with
    | error stop s' =>
      cases (next?_of_error hstart).symm.trans hnext
      exact ⟨List.forall_mem_nil _, fun _ _ _ _ htodo => by cases htodo⟩
    | ok jobs s' =>
      cases (next?_of_ok hstart).symm.trans hnext
      -- If the job that begins leads to a delay, it leads to nothing else, so the delay is next.
      by_cases hoff : ∃ j ∈ jobs, j.PutsOff
      · obtain ⟨slot, input, node, kind, leaf, span, rfl, hget, hkind, rfl, hclock, hspan⟩ :=
          Job.start_putsOff hstart hoff
        refine ⟨hrest, fun slot' span' value' later htodo => ?_⟩
        cases htodo
        exact ⟨hclock, hspan.imp_right fun ⟨hleaf, milliseconds, hstate, hof⟩ =>
          ⟨kind, milliseconds, ⟨slot, input, rest, node, rfl, hget, hleaf ▸ hkind, hstate⟩, hof⟩⟩
      · have hnone : ∀ j ∈ jobs ++ rest, ¬j.PutsOff :=
          List.forall_mem_append.2 ⟨fun j hj hputs => hoff ⟨j, hj, hputs⟩, hrest⟩
        refine ⟨fun j hj => hnone j (List.mem_of_mem_tail hj), fun slot span value later htodo => ?_⟩
        have htodo : jobs ++ rest = .carryOut slot (.emitAfter span value) :: later := htodo
        have hhead : Job.carryOut slot (.emitAfter span value) ∈ jobs ++ rest :=
          htodo ▸ List.mem_cons_self ..
        exact (hnone _ hhead trivial).elim

/-- What is to be put off stays next. -/
theorem Prompt.comes (h : start.Prompt) (hcomes : Comes start m) : m.Prompt := by
  induction hcomes with
  | refl => exact h
  | tail _ hnext ih => exact (ih.next hnext).1

/-- A delay that is representable by itself, but not from now on, overflows. -/
theorem Delays.overflows (h : m.Delays kind milliseconds) {span : Nat}
    (hspan : Duration.ofSeconds? (milliseconds / 1000) = some span)
    (hadd : Duration.add? m.engine.clock.now span = none) :
    ∃ m', Comes m m' ∧ m'.todo = [] ∧ m'.stop? = some .timeOverflow := by
  obtain ⟨s, todo, stop?⟩ := m
  obtain ⟨slot, input, rest, node, rfl, hget, hkind, hstate⟩ := h
  obtain ⟨s', hclock, hstart⟩ := Job.start_handle_process hget hkind input
  have houtcome : (Process.run delay input node.state?).outcome = .ok [.emitAfter span input] := by
    show delay.effects input node.state? = _
    rw [hstate, effects_delay, hspan]
  rw [houtcome] at hstart
  have hlate : (Job.carryOut slot (.emitAfter span input)).start s' = .error .timeOverflow s' := by
    show Job.startCarryOut slot (.emitAfter span input) s' = _
    have hnone : s'.clock.schedule? span (.emit slot input) = none := by
      rw [hclock, Clock.schedule?, hadd]
      rfl
    unfold Job.startCarryOut
    dsimp only
    rw [hnone]
  exact ⟨_, .tail (.single (next?_of_ok hstart)) (next?_of_error hlate), rfl, rfl⟩

/-- Time overflows only for a delay that is representable by itself, but not from now on. -/
theorem exists_delays_of_overflow (hcomes : Comes start m) (hstart : start.stop? = none)
    (hnone : ∀ job ∈ start.todo, ¬job.PutsOff) (htimely : start.Timely)
    (hstop : m.stop? = some .timeOverflow) :
    ∃ before kind milliseconds span, Comes start before ∧ before.Delays kind milliseconds ∧
      Duration.ofSeconds? (milliseconds / 1000) = some span ∧
      Duration.add? before.engine.clock.now span = none := by
  have hprompt : start.Prompt := fun job hjob => hnone job (List.mem_of_mem_tail hjob)
  obtain ⟨late, hlate, slot, span, value, rest, htodo, hadd⟩ := overflows_of_comes hcomes hstart hstop
  rcases hlate.cases_tail with rfl | ⟨before, hbefore, hnext⟩
  · have hhead := hnone (.carryOut slot (.emitAfter span value))
    rw [htodo] at hhead
    exact (hhead (List.mem_cons_self ..) trivial).elim
  · obtain ⟨hclock, rfl | ⟨kind, milliseconds, hdelays, hspan⟩⟩ :=
      ((hprompt.comes hbefore).next hnext).2 slot span value rest htodo
    · have hnow := (htimely.comes hlate).engine.now
      rw [Duration.add?, Nat.add_zero, if_pos hnow] at hadd
      cases hadd
    · exact ⟨before, kind, milliseconds, span, hbefore, hdelays, hspan, hclock ▸ hadd⟩

end Moment

/-! ## Graphs of the catalogue -/

/-- Whether an operation lets values flow and names no span of time itself. -/
def Operation.Proceeds : Operation → Prop
  | .push _ | .tick | .runUntilIdle | .settle => True
  | _ => False

namespace Graph

open Engine

/-- Operations that let values flow begin with a single job, which puts nothing off. -/
theorem begin_of_proceeds {π κ : Type} (root : SlotId) {op : Operation} (hop : op.Proceeds)
    (s : Engine π κ) :
    ∃ job, begin root op s = ⟨s, [job], none⟩ ∧ ¬job.PutsOff ∧ ∀ rank, job.Spare rank := by
  cases op with
  | push value => exact ⟨_, rfl, id, fun _ => trivial⟩
  | tick => exact ⟨_, rfl, id, fun _ => trivial⟩
  | runUntilIdle => exact ⟨_, rfl, id, fun _ => trivial⟩
  | settle => exact ⟨_, rfl, id, fun _ => trivial⟩
  | _ => exact hop.elim

/-- **When delays overflow.** However a graph of the catalogue has been used, an operation that lets
values flow succeeds or fails with a reason, unless it overflows. It overflows exactly if a delay is
given an input whose time is representable by itself, but not when it is added to the time of now. It
fails for a delay exactly if one is given an input whose time is not representable by itself. -/
theorem delays_overflow_exactly {config : Config} {spec : SpecNode}
    {g : Graph CatalogueProcess CatalogueCondition}
    (hbuild : build Registry.catalogue config spec = .ok g) (ops : List Operation) {op : Operation}
    (hop : op.Proceeds) :
    let s := (g.operateAll ops).2.engine
    let answer := ((g.operateAll ops).2.operate op).1
    ((∃ a, answer = .ok a) ∨ (∃ e, answer = .error (.failed e)) ∨ answer = .error .timeOverflow) ∧
      (answer = .error .timeOverflow ↔ ∃ m kind milliseconds span, Comes (begin g.root op s) m ∧
        m.Delays kind milliseconds ∧ Duration.ofSeconds? (milliseconds / 1000) = some span ∧
        Duration.add? m.engine.clock.now span = none) ∧
      ∀ kind milliseconds, answer = .error (.failed (.leaf kind (.invalidDelay milliseconds))) ↔
        ∃ m, Comes (begin g.root op s) m ∧ m.Delays kind milliseconds ∧
          Duration.ofSeconds? (milliseconds / 1000) = none := by
  intro s answer
  obtain ⟨job, hbegin, hnone, hspare⟩ := begin_of_proceeds g.root hop s
  obtain ⟨rank, hrank⟩ := (acyclic_operateAll hbuild ops).exists_rank (wellFormed_operateAll hbuild ops)
  have hcomes := comes_act (g.operateAll ops).2 op s
  rw [operateAll_root, hbegin] at hcomes
  have hends := hrank.ends_of_comes (List.forall_mem_singleton.2 (hspare rank)) hcomes
  have hanswer : ∀ stop, answer = .error stop ↔
      (ended ((g.operateAll ops).2.act op) s).stop? = some stop :=
    (perform_of_ended (g.operateAll ops).2 ((g.operateAll ops).2.act op)).2
  have htimely : (⟨s, [job], none⟩ : Moment _ _).Timely :=
    hbegin ▸ timely_begin g.root op (timely_operateAll hbuild ops)
  -- Whatever comes to an end comes to the end of the operation.
  have hend : ∀ {m m' stop}, Comes ⟨s, [job], none⟩ m → Comes m m' → m'.todo = [] →
      m'.stop? = some stop → answer = .error stop := fun hm hm' htodo hstop =>
    (hanswer _).2 (eq_of_comes hcomes (hm.trans hm') (ended_todo ..) htodo ▸ hstop)
  rw [hbegin]
  refine ⟨?_, ⟨fun hover => ?_, ?_⟩, fun kind milliseconds => ⟨fun hrefused => ?_, ?_⟩⟩
  · have hperform : answer = ((g.operateAll ops).2.perform ((g.operateAll ops).2.act op)).1 := rfl
    rw [hperform, perform]
    rcases hends.outcome with ⟨a, s', hact⟩ | ⟨e, s', hact⟩ | ⟨⟨s', hact⟩, -⟩
    · exact .inl ⟨a, by rw [hact]⟩
    · exact .inr (.inl ⟨e, by rw [hact]⟩)
    · exact .inr (.inr (by rw [hact]))
  · exact exists_delays_of_overflow hcomes rfl (List.forall_mem_singleton.2 hnone) htimely
      ((hanswer _).1 hover)
  · rintro ⟨m, kind, milliseconds, span, hm, hdelays, hspan, hadd⟩
    obtain ⟨m', hm', htodo, hstop⟩ := hdelays.overflows hspan hadd
    exact hend hm hm' htodo hstop
  · exact exists_delays_of_refused hcomes rfl ((hanswer _).1 hrefused)
  · rintro ⟨m, hm, hdelays, hnone⟩
    obtain ⟨m', hm', htodo, hstop⟩ := hdelays.refused hnone
    exact hend hm hm' htodo hstop

/-- A delay of more than half of all time that can be represented. -/
def overdue : SpecNode :=
  .component [.ofKind "get"] [(SpecNode.ofKind "delay").withState (.value (.number 1e22))]

/-- Whether the time has overflowed. -/
def overflowed : Except Stop Answer → Bool
  | .error .timeOverflow => true
  | _ => false

/-- The test for an overflow is passed by overflows only. -/
theorem eq_of_overflowed {answer : Except Stop Answer} (h : overflowed answer = true) :
    answer = .error .timeOverflow := by
  rcases answer with stop | a
  · cases stop with
    | timeOverflow => rfl
    | _ => cases h
  · cases h

/-- The first value is put off, and settling waits for it. There is no such time again. -/
theorem operate_overdue :
    ∃ g, build Registry.catalogue {} overdue = .ok g ∧
      ((g.operateAll [.push (.number 1), .settle]).2.operate (.push (.number 2))).1 =
        .error .timeOverflow := by
  have hok : (build Registry.catalogue {} overdue).isOk = true := by decide +kernel
  have hrun : ((build Registry.catalogue {} overdue).toOption.any fun g => overflowed
      ((g.operateAll [.push (.number 1), .settle]).2.operate (.push (.number 2))).1) = true := by
    decide +kernel
  obtain ⟨g, hbuild⟩ := exists_of_isOk hok
  rw [hbuild] at hrun
  exact ⟨g, hbuild, eq_of_overflowed hrun⟩

/-- The second value overflows: it is given to a delay that is representable by itself, and not from now
on. -/
theorem delays_overflow_exactly_overdue :
    ∃ g, build Registry.catalogue {} overdue = .ok g ∧ (Operation.push (.number 2)).Proceeds ∧
      ∃ m kind milliseconds span,
        Comes (begin g.root (.push (.number 2))
          (g.operateAll [.push (.number 1), .settle]).2.engine) m ∧
        m.Delays kind milliseconds ∧ Duration.ofSeconds? (milliseconds / 1000) = some span ∧
        Duration.add? m.engine.clock.now span = none := by
  obtain ⟨g, hbuild, hlast⟩ := operate_overdue
  have hpush : (Operation.push (.number 2)).Proceeds := trivial
  exact ⟨g, hbuild, hpush, (delays_overflow_exactly hbuild [.push (.number 1), .settle] hpush).2.1.1 hlast⟩

/-- Delays do overflow, where values are only pushed and waited for. -/
theorem delays_can_overflow :
    ¬∀ (config : Config) (spec : SpecNode) (g : Graph CatalogueProcess CatalogueCondition),
      build Registry.catalogue config spec = .ok g → ∀ ops : List Operation,
        (∀ op ∈ ops, op.Proceeds) → ∀ answer ∈ (g.operateAll ops).1,
          (∃ a, answer = .ok a) ∨ ∃ e, answer = .error (.failed e) := by
  intro hclaim
  obtain ⟨g, hbuild, hlast⟩ := operate_overdue
  have hproceed : ∀ op ∈ [Operation.push (.number 1), .settle, .push (.number 2)], op.Proceeds := by
    simp [Operation.Proceeds]
  have hmem : .error .timeOverflow ∈
      (g.operateAll [.push (.number 1), .settle, .push (.number 2)]).1 :=
    List.mem_cons_of_mem _ (List.mem_cons_of_mem _ (List.mem_singleton.2 hlast.symm))
  rcases hclaim {} overdue g hbuild _ hproceed _ hmem with ⟨a, h⟩ | ⟨e, h⟩ <;> cases h

end Graph

end Dataflow
