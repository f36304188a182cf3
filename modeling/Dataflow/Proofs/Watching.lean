import Dataflow.Graph.Build
import Dataflow.Proofs.Acceptance
import Dataflow.Proofs.Views

/-!
# Watched leaves

A watched leaf knows the literal of its state, if its specification has one, and remembers whether it
has written to its state itself. It does what the leaf under watch does as long as it finds its state
as expected: set, and equal to the literal until it writes to it. If it ever finds anything else, it
refuses with an error of one's choice, the alarm. So a graph of watched leaves shows, by being like the
graph without the watch, that no leaf is run or asked with a state that is not as expected.

This module has the watch and its registry, and that assembling a specification with watched leaves
gives what assembling it without gives, with the leaves under watch.
-/

namespace Dataflow

/-- The literal of a leaf's state, if the state is a `value` node. -/
def SpecNode.stateLiteral? (s : SpecNode) : Option Value :=
  match s.property? "state" with
  | some (.node n) => if n.Is .value then (n.literal "value").toOption else none
  | _ => none

/-! ## Watching -/

/-- A leaf under watch. -/
structure Watched (α : Type) where
  leaf : α
  /-- What the state is until the leaf writes to it, if that is known. -/
  literal? : Option Value
  /-- What the watch refuses with. -/
  alarm : LeafError
  /-- Whether the leaf has written to its state. -/
  wrote : Bool

namespace Watched

variable {α π κ : Type}

/-- Whether the state is as expected. -/
def Expects (w : Watched α) (state? : Option Value) : Prop :=
  ∀ literal, w.literal? = some literal →
    ∃ value, state? = some value ∧ (w.wrote = false → value = literal)

/-- The leaf under watch after a run, which wrote to the state or not. -/
def after (w : Watched α) (next : α) (written? : Option Value) : Watched α :=
  { w with leaf := next, wrote := w.wrote || written?.isSome }

open Classical in
noncomputable instance [Process π] : Process (Watched π) where
  run w input state? :=
    if w.Expects state? then
      let reaction := Process.run w.leaf input state?
      reaction.map fun next => w.after next reaction.written?
    else { next := w, written? := none, announced := [], outcome := .error w.alarm }

open Classical in
noncomputable instance [Condition κ] : Condition (Watched κ) where
  test w input state? :=
    if w.Expects state? then Condition.test w.leaf input state? else .error w.alarm

/-- As long as its state is as expected, a process under watch runs as it would without. -/
theorem run_of_expects [Process π] {w : Watched π} {state? : Option Value}
    (h : w.Expects state?) (input : Value) :
    Process.run w input state? =
      (Process.run w.leaf input state?).map fun next =>
        w.after next (Process.run w.leaf input state?).written? :=
  if_pos h

/-- As long as its state is as expected, a condition under watch answers as it would without. -/
theorem test_of_expects [Condition κ] {w : Watched κ} {state? : Option Value}
    (h : w.Expects state?) (input : Value) :
    Condition.test w input state? = Condition.test w.leaf input state? :=
  if_pos h

/-- A leaf that wrote to its state finds it as expected: it is set. What it does not write to stays
as it is. -/
theorem Expects.after {w : Watched α} {state? : Option Value} (h : w.Expects state?) (next : α)
    (written? : Option Value) : (w.after next written?).Expects (written? <|> state?) := by
  intro literal hliteral
  obtain ⟨value, rfl, hvalue⟩ := h literal hliteral
  cases written? with
  | none => exact ⟨value, rfl, fun hwrote => hvalue (by simpa [Watched.after] using hwrote)⟩
  | some written => exact ⟨written, rfl, fun hwrote => by simp [Watched.after] at hwrote⟩

end Watched

/-- The view of watched leaves without the watch. -/
def View.unwatched (π κ : Type) : View (Watched π) π (Watched κ) κ := ⟨Watched.leaf, Watched.leaf, false⟩

section

variable {π κ : Type}

/-- The factory with its leaves put under watch. -/
def Factory.watched (alarm : LeafError) : Factory π κ → Factory (Watched π) (Watched κ)
  | .process make => .process fun spec => (⟨·, spec.stateLiteral?, alarm, false⟩) <$> make spec
  | .condition make => .condition fun spec => (⟨·, spec.stateLiteral?, alarm, false⟩) <$> make spec

namespace Registry

/-- The registry with all leaves put under watch. -/
def watched (alarm : LeafError) (r : Registry π κ) : Registry (Watched π) (Watched κ) where
  factories := r.factories.map fun entry => (entry.1, entry.2.watched alarm)
  proper entry hentry := by
    obtain ⟨old, hold, rfl⟩ := List.mem_map.1 hentry
    exact r.proper old hold

/-- The watched registry makes the same leaves, each under watch. -/
theorem find?_watched (alarm : LeafError) (r : Registry π κ) (kind : String) :
    (r.watched alarm).find? kind = (r.find? kind).map (Factory.watched alarm) :=
  Keyed.lookup_map _ kind r.factories

/-- To watch leaves does not change what they are taken for. -/
theorem shape?_watched (alarm : LeafError) (r : Registry π κ) (kind : String) :
    (r.watched alarm).shape? kind = r.shape? kind := by
  rw [shape?, shape?, find?_watched, Option.map_map]
  congr 1
  funext factory
  cases factory <;> rfl

end Registry

end

/-! ## Wiring seen through a view -/

namespace View

open Plan

variable {π π' κ κ' : Type} (v : View π π' κ κ')

/-- What is seen of what has been wired so far. -/
def wired (w : Wired π κ) : Wired π' κ' := ⟨w.arena.map v.node, w.channels, w.constants⟩

/-- A graph that has just been wired is seen as one wired from the view. -/
theorem engine_engineOf (h : v.hidesHops = false) (config : Config) (w : Wired π κ) :
    v.engine (Graph.engineOf config w) = Graph.engineOf config (v.wired w) := by
  simp only [engine, Graph.engineOf, Engine.initial, View.config, View.log, h]
  rfl

/-- The view of what wiring does is what the other wiring does to the view. -/
def SeesWire {α : Type} (act : Wire π κ α) (act' : Wire π' κ' α) : Prop :=
  ∀ w, act'.run (v.wired w) = (act.run w).map fun r => (r.1, v.wired r.2)

variable {v} {α β : Type}

namespace SeesWire

theorem pure (a : α) : v.SeesWire (pure a) (pure a) := fun _ => rfl

theorem throw (e : BuildError) :
    v.SeesWire (throw e : Wire π κ α) (throw e) := fun _ => rfl

/-- Wiring in sequence is seen if each act is. -/
theorem bind {x : Wire π κ α} {x' : Wire π' κ' α} {f : α → Wire π κ β} {f' : α → Wire π' κ' β}
    (hx : v.SeesWire x x') (hf : ∀ a, v.SeesWire (f a) (f' a)) :
    v.SeesWire (x >>= f) (x' >>= f') := by
  intro w
  rw [StateT.run_bind, StateT.run_bind, hx w]
  cases x.run w with
  | error e => rfl
  | ok r => exact hf r.1 r.2

theorem discard {x : Wire π κ α} {x' : Wire π' κ' α} (hx : v.SeesWire x x') :
    v.SeesWire (discard x) (discard x') := by
  show v.SeesWire (x >>= fun _ => Pure.pure PUnit.unit) (x' >>= fun _ => Pure.pure PUnit.unit)
  exact hx.bind fun _ => pure PUnit.unit

/-- A node that is added gets the same identifier. -/
theorem alloc (kind : NodeKind π κ) (outputs : List Listener) :
    v.SeesWire (Plan.alloc kind outputs) (Plan.alloc (v.kind kind) outputs) := by
  intro w
  have hnext : (v.wired w).arena.nextSlot = w.arena.nextSlot := Arena.nextSlot_map ..
  have halloc : (w.arena.alloc (.fresh kind outputs)).map v.node =
      (v.wired w).arena.alloc (.fresh (v.kind kind) outputs) := Arena.map_alloc ..
  show Except.ok ((v.wired w).arena.nextSlot,
      (⟨(v.wired w).arena.alloc (.fresh (v.kind kind) outputs), w.channels, w.constants⟩ : Wired π' κ')) =
    Except.ok (w.arena.nextSlot,
      ⟨(w.arena.alloc (.fresh kind outputs)).map v.node, w.channels, w.constants⟩)
  rw [hnext, halloc]

/-- A node that is given its kind is seen to get the kind as it is seen. -/
theorem setKind (slot : SlotId) (kind : NodeKind π κ) :
    v.SeesWire (Plan.setKind slot kind) (Plan.setKind slot (v.kind kind)) := by
  intro w
  have hget : (v.wired w).arena.get? slot = (w.arena.get? slot).map v.node := Arena.get?_map ..
  show Except.ok ((), _) = Except.ok ((), v.wired _)
  dsimp only
  rw [hget]
  cases w.arena.get? slot with
  | none => rfl
  | some node =>
    dsimp only [Option.map_some]
    rw [wired, wired, Arena.map_set]
    rfl

/-- Listeners hear of a channel, and channels are not changed by a view. -/
theorem listen (scope : Scope) (key : String) (listeners : List Listener) :
    v.SeesWire (Plan.listen scope key listeners : Wire π κ Unit) (Plan.listen scope key listeners) := by
  unfold Plan.listen
  cases scope.lookup key with
  | ok channel => exact fun _ => rfl
  | error e => exact throw _

end SeesWire

variable {registry : Registry π κ} {registry' : Registry π' κ'} {scope : Scope}

/-- Whether the leaves of one registry are seen as those of the other. -/
def SeesLeaves (v : View π π' κ κ') (registry : Registry π κ) (registry' : Registry π' κ') : Prop :=
  ∀ spec, makeLeaf registry' spec = (makeLeaf registry spec).map v.kind

/-- What is to be shown of the wiring of a plan. -/
abbrev SeesPlan (v : View π π' κ κ') (registry : Registry π κ) (registry' : Registry π' κ')
    (scope : Scope) (plan : Plan) : Prop :=
  ∀ outputs, v.SeesWire (wire registry scope outputs plan) (wire registry' scope outputs plan)

/-- The consumers of a component are wired alike, if each of their plans is. -/
theorem seesWire_wireConsumers {consumers : List Consumer}
    (ih : ∀ plan, .node plan ∈ consumers → v.SeesPlan registry registry' scope plan) (slot : SlotId) :
    v.SeesWire (wireConsumers registry scope slot consumers)
      (wireConsumers registry' scope slot consumers) := by
  induction consumers with
  | nil => exact .pure []
  | cons consumer rest ihr =>
    have hrest := ihr fun plan hplan => ih plan (List.mem_cons_of_mem _ hplan)
    refine .bind ?_ fun target => hrest.bind fun targets => .pure (target :: targets)
    cases consumer with
    | broadcast channel => exact .pure _
    | node plan => exact (ih plan (List.mem_cons_self ..) _).bind fun slot => .pure (Listener.input slot)

/-- The producers of a component are wired alike, if each of their plans is. -/
theorem seesWire_wireProducers {producers : List Producer}
    (ih : ∀ plan, .node plan ∈ producers → v.SeesPlan registry registry' scope plan)
    (targets : List Listener) :
    v.SeesWire (wireProducers registry scope targets producers)
      (wireProducers registry' scope targets producers) := by
  induction producers with
  | nil => exact .pure []
  | cons producer rest ihr =>
    have hrest := ihr fun plan hplan => ih plan (List.mem_cons_of_mem _ hplan)
    refine .bind ?_ fun slot? => hrest.bind fun slots => .pure (slot?.toList ++ slots)
    cases producer with
    | listener key => exact (SeesWire.listen scope key targets).bind fun _ => .pure none
    | node plan => exact (ih plan (List.mem_cons_self ..) _).bind fun slot => .pure (some slot)

theorem seesWire_wireOptional {plan? : Option Plan}
    (ih : ∀ plan, plan? = some plan → v.SeesPlan registry registry' scope plan)
    (outputs : List Listener) :
    v.SeesWire (wireOptional registry scope outputs plan?)
      (wireOptional registry' scope outputs plan?) := by
  cases plan? with
  | none => exact .pure none
  | some plan => exact (ih plan rfl outputs).bind fun slot => .pure (some slot)

/-- Plans that are wired one after the other are wired alike, if each is. -/
theorem seesWire_wireAll {plans : List Plan}
    (ih : ∀ plan ∈ plans, v.SeesPlan registry registry' scope plan) (outputs : List Listener) :
    v.SeesWire (wireAll registry scope outputs plans) (wireAll registry' scope outputs plans) := by
  induction plans with
  | nil => exact .pure []
  | cons plan rest ihr =>
    have hrest := ihr fun plan hplan => ih plan (List.mem_cons_of_mem _ hplan)
    exact (ih plan (List.mem_cons_self ..) outputs).bind fun slot =>
      hrest.bind fun slots => .pure (slot :: slots)

/-- Wiring a plan and then looking is looking and then wiring. -/
theorem seesWire_wire (hleaves : v.SeesLeaves registry registry') (plan : Plan) :
    v.SeesPlan registry registry' scope plan := by
  induction plan using Plan.induct with
  | component consumers producers ihc ihp =>
    intro outputs
    exact (SeesWire.alloc .placeholder outputs).bind fun slot =>
      (seesWire_wireConsumers ihc slot).bind fun targets =>
        (seesWire_wireProducers ihp targets).bind fun producers =>
          (SeesWire.setKind slot (.composite producers)).bind fun _ => .pure slot
  | conditional conditions positive negative? ihs ihp ihn =>
    intro outputs
    exact (SeesWire.alloc .placeholder outputs).bind fun slot =>
      (ihp [.output slot]).bind fun positive =>
        (seesWire_wireOptional ihn [.output slot]).bind fun negative? =>
          (seesWire_wireAll ihs []).bind fun conditions =>
            (SeesWire.setKind slot (.conditional conditions positive negative?)).bind
              fun _ => .pure slot
  | constant value =>
    intro outputs
    exact (SeesWire.alloc (.constant value) outputs).bind fun slot =>
      SeesWire.bind (fun _ => rfl) fun _ => .pure slot
  | leaf spec state? ih =>
    intro outputs
    have hmake : v.SeesWire (liftM (makeLeaf registry spec) >>= fun kind => Plan.alloc kind outputs)
        (liftM (makeLeaf registry' spec) >>= fun kind => Plan.alloc kind outputs) := by
      -- To look at the kind of a leaf is to make it from the other registry.
      rw [hleaves spec]
      cases makeLeaf registry spec with
      | ok kind => exact SeesWire.alloc kind outputs
      | error e => exact fun _ => rfl
    have hleaf := hmake.bind fun slot =>
      (seesWire_wireOptional ih [.state slot]).discard.bind fun _ => SeesWire.pure slot
    simp only [bind_assoc] at hleaf
    exact hleaf

/-- Assembling a specification and then looking is looking and then assembling. -/
theorem assemble_view (hleaves : v.SeesLeaves registry registry')
    (hshapes : ∀ kind, registry'.shape? kind = registry.shape? kind) (spec : SpecNode) :
    Graph.assemble registry' spec =
      (Graph.assemble registry spec).map fun r => (r.1, r.2.1, v.wired r.2.2) := by
  have hshape? : registry'.shape? = registry.shape? := funext hshapes
  unfold Graph.assemble
  rw [hshape?]
  cases (declare registry.shape? spec).run ⟨.empty, .empty⟩ with
  | error e => rfl
  | ok r =>
    obtain ⟨plan, declared⟩ := r
    have hplan : v.SeesPlan registry registry' declared.scope plan := seesWire_wire hleaves plan
    have hwire := hplan [.sink] ⟨.empty, declared.channels, []⟩
    -- No node is there when wiring begins, so there is nothing to look at yet.
    have hstart : v.wired ⟨.empty, declared.channels, []⟩ = ⟨.empty, declared.channels, []⟩ := by
      simp [wired, Arena.map, Arena.empty]
    rw [hstart] at hwire
    show ((wire registry' declared.scope [.sink] plan).run ⟨.empty, declared.channels, []⟩ >>=
        fun r => pure (r.1, declared.scope, r.2)) =
      ((wire registry declared.scope [.sink] plan).run ⟨.empty, declared.channels, []⟩ >>=
        fun r => pure (r.1, declared.scope, r.2)).map fun r => (r.1, r.2.1, v.wired r.2.2)
    rw [hwire]
    cases (wire registry declared.scope [.sink] plan).run ⟨.empty, declared.channels, []⟩ <;> rfl

end View

namespace Registry

variable {π κ : Type}

/-- Without the watch, the leaves of a watched registry are those of the registry. -/
theorem seesLeaves_watched (alarm : LeafError) (r : Registry π κ) :
    (View.unwatched π κ).SeesLeaves (r.watched alarm) r := by
  intro spec
  unfold Plan.makeLeaf
  rw [find?_watched]
  cases r.find? spec.kind with
  | none => rfl
  | some factory =>
    cases factory with
    | process make =>
      simp only [Option.map_some, Factory.watched, Factory.make]
      cases make spec <;> rfl
    | condition make =>
      simp only [Option.map_some, Factory.watched, Factory.make]
      cases make spec <;> rfl

end Registry

end Dataflow
