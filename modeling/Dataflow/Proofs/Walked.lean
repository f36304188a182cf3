import Dataflow.Proofs.Walk
import Dataflow.Proofs.Wired

/-!
# A graph does what the walk does

A graph is flat: nodes with listeners, and slots that name other nodes. The walk over the plan that the
graph was wired from knows none of this, and still does exactly the same with every input, as long as
inputs may nest as deep as there are nodes.

The link between the two is `Conveys`: delivering to the listeners of a place is what has been handed
down for its output. It is shown from each place to its parts, so it holds of all places, and with it
`Walks`, that entering an input is a run of the walk. Two numbers bound what either may use up. An input
at a place needs room for the nodes of its plan and for whatever its output needs, and an output is
passed on at most as often as there are places with a smaller number.
-/

namespace Dataflow

/-! ## Acts that do the same -/

namespace Engine

variable {π κ α β : Type}

/-- The engine is wired like the given one, with the given inputs in progress. -/
structure At (s₀ : Engine π κ) (active : List SlotId) (s : Engine π κ) : Prop where
  wiring : SameWiring s₀ s
  active : s.active = active

/-- Two acts do the same in a state and leave the wiring and the inputs in progress as they are. -/
structure SameIn (s₀ : Engine π κ) (active : List SlotId) (x y : Act π κ α) (s : Engine π κ) :
    Prop where
  eq : x s = y s
  stays : ∀ {a s'}, x s = .ok a s' → At s₀ active s'

/-- Two acts do the same in all states of the same wiring and with the same inputs in progress. -/
def Same (s₀ : Engine π κ) (active : List SlotId) (x y : Act π κ α) : Prop :=
  ∀ s, At s₀ active s → SameIn s₀ active x y s

variable {s₀ s : Engine π κ} {active : List SlotId}

namespace At

/-- A hop that is reported leaves the wiring as it is. -/
theorem traced (h : At s₀ active s) (hop : Hop) : At s₀ active (s.traced hop) := by
  obtain ⟨log, hlog⟩ := traced_eq hop s
  rw [hlog]
  exact ⟨h.wiring.trans ⟨rfl, rfl, fun _ => rfl, rfl⟩, h.active⟩

/-- A node that is written back with the same wiring leaves the wiring as it is. -/
theorem set (h : At s₀ active s) {slot : SlotId} {node node' : Node π κ}
    (hget : s.arena.get? slot = some node) (hwiring : node'.wiring = node.wiring) :
    At s₀ active { s with arena := s.arena.set slot node' } :=
  ⟨h.wiring.trans (.set hget hwiring), h.active⟩

end At

namespace SameIn

/-- Acts do the same if what they come to does. -/
theorem congr {x y x' y' : Act π κ α} {s' : Engine π κ} (hx : x s = x' s') (hy : y s = y' s')
    (h : SameIn s₀ active x' y' s') : SameIn s₀ active x y s where
  eq := by rw [hx, hy, h.eq]
  stays hok := h.stays (hx ▸ hok)

/-- Acts that do the same may be followed by acts that do the same. -/
theorem bind {x x' : Act π κ α} {f f' : α → Act π κ β} (hx : SameIn s₀ active x x' s)
    (hf : ∀ a s', At s₀ active s' → SameIn s₀ active (f a) (f' a) s') :
    SameIn s₀ active (x >>= f) (x' >>= f') s := by
  have heq := hx.eq
  cases h : x s with
  | ok a s' =>
    rw [h] at heq
    exact (hf a s' (hx.stays h)).congr (bind_of_ok h) (bind_of_ok heq.symm)
  | error stop s' =>
    rw [h] at heq
    refine ⟨by rw [bind_of_error h, bind_of_error heq.symm], fun hok => ?_⟩
    rw [bind_of_error h] at hok
    cases hok

/-- Acts that succeed alike do the same, if the wiring stays. -/
theorem of_ok {x y : Act π κ α} {a : α} {s' : Engine π κ} (hx : x s = .ok a s')
    (hy : y s = .ok a s') (h : At s₀ active s') : SameIn s₀ active x y s where
  eq := by rw [hx, hy]
  stays hok := by
    rw [hx] at hok
    cases hok
    exact h

/-- Acts that fail alike do the same. -/
theorem of_error {x y : Act π κ α} {stop : Stop} {s' : Engine π κ} (hx : x s = .error stop s')
    (hy : y s = .error stop s') : SameIn s₀ active x y s where
  eq := by rw [hx, hy]
  stays hok := by
    rw [hx] at hok
    cases hok

/-- To answer is to do the same. -/
theorem pure (h : At s₀ active s) (a : α) : SameIn s₀ active (pure a) (pure a) s :=
  .of_ok rfl rfl h

/-- To fail is to do the same. -/
theorem throw (stop : Stop) : SameIn s₀ active (throw stop : Act π κ α) (throw stop) s :=
  .of_error rfl rfl

/-- Acts that do the same within an input do the same around it. -/
theorem nested {x y : Act π κ Unit} {slot : SlotId}
    (h : SameIn s₀ (slot :: active) x y { s with active := slot :: s.active }) :
    SameIn s₀ active (Engine.nested slot x) (Engine.nested slot y) s := by
  have heq := h.eq
  unfold Engine.nested
  cases hx : x { s with active := slot :: s.active } with
  | ok a s' =>
    rw [hx] at heq
    have hs' := h.stays hx
    -- The input is taken off again, whatever was done within it.
    have htail : At s₀ active { s' with active := s'.active.tail } := by
      refine ⟨hs'.wiring.trans ⟨rfl, rfl, fun _ => rfl, rfl⟩, ?_⟩
      rw [hs'.active]
      rfl
    exact .of_ok (by rw [hx]) (by rw [← heq]) htail
  | error stop s' =>
    rw [hx] at heq
    exact .of_error (by rw [hx]) (by rw [← heq])

end SameIn

namespace Same

/-- Acts that do the same may be followed by acts that do the same. -/
theorem bind {x x' : Act π κ α} {f f' : α → Act π κ β} (hx : Same s₀ active x x')
    (hf : ∀ a, Same s₀ active (f a) (f' a)) : Same s₀ active (x >>= f) (x' >>= f') :=
  fun s hs => (hx s hs).bind fun a s' hs' => hf a s' hs'

/-- To answer is to do the same. -/
theorem pure (a : α) : Same s₀ active (pure a) (pure a) := fun _ hs => .pure hs a

/-- To report a hop is to do the same. -/
theorem trace (hop : Hop) : Same s₀ active (Engine.trace hop) (Engine.trace hop) :=
  fun _ hs => .of_ok (trace_eq hop) (trace_eq hop) (hs.traced hop)

/-- Storing a state leaves the wiring as it is. -/
theorem setState (slot : SlotId) (value : Value) :
    Same s₀ active (Engine.setState slot value) (Engine.setState slot value) := by
  intro s hs
  refine ⟨rfl, fun {a s'} hok => ?_⟩
  unfold Engine.setState at hok
  rw [node?_bind] at hok
  cases hget : s.arena.get? slot with
  | none =>
    rw [hget] at hok
    cases hok
    exact ⟨hs.wiring.trans ⟨rfl, rfl, fun _ => rfl, rfl⟩, hs.active⟩
  | some node =>
    rw [hget] at hok
    dsimp only at hok
    rw [trace_bind] at hok
    cases hok
    rw [← traced_arena (.state slot node.kind.name value)] at hget
    exact (hs.traced _).set hget rfl

/-- Sending leaves the wiring as it is. -/
theorem send (id : ChannelId) (value : Value) :
    Same s₀ active (Engine.send id value) (Engine.send id value) := by
  intro s hs
  refine ⟨rfl, fun {a s'} hok => ?_⟩
  unfold Engine.send at hok
  rw [get_bind] at hok
  cases hget : s.channels.get? id with
  | none =>
    rw [hget] at hok
    cases hok
    exact ⟨hs.wiring.trans ⟨rfl, rfl, fun _ => rfl, rfl⟩, hs.active⟩
  | some channel =>
    rw [hget] at hok
    dsimp only at hok
    rw [trace_bind] at hok
    cases hok
    have hs := hs.traced (.broadcast id channel.key channel.listeners.length value)
    exact ⟨hs.wiring.trans ⟨rfl, rfl, fun _ => rfl, rfl⟩, hs.active⟩

/-- Acts for the elements of a list do the same if those for each element do. -/
theorem forM {xs : List β} {f f' : β → Act π κ PUnit} (h : ∀ x ∈ xs, Same s₀ active (f x) (f' x)) :
    Same s₀ active (xs.forM f) (xs.forM f') := by
  induction xs with
  | nil => exact .pure _
  | cons x xs ih =>
    exact (h x (List.mem_cons_self ..)).bind fun _ => ih fun x hx => h x (List.mem_cons_of_mem _ hx)

/-- Putting a value out at the root leaves the wiring as it is. -/
theorem sink (value : Value) :
    Same s₀ active (Engine.sink value : Act π κ Unit) (Engine.sink value) :=
  fun _ hs => .of_ok rfl rfl ⟨hs.wiring.trans ⟨rfl, rfl, fun _ => rfl, rfl⟩, hs.active⟩

end Same

/-! ## What is handed down -/

section Conveyed

variable [Process π] [Condition κ]

/-- Delivering to listeners, entering inputs in the given way and passing outputs on at least so often,
is what has been handed down. -/
def Delivers (s₀ : Engine π κ) (active : List SlotId) (enter : SlotId → Value → Act π κ Unit)
    (hops : Nat) (out : Value → Act π κ Unit) (listeners : List Listener) : Prop :=
  ∀ more, hops ≤ more → ∀ value,
    Same s₀ active (listeners.forM (deliverBy enter (relay enter more) value)) (out value)

/-- A way to enter inputs that lets them nest so deep. -/
inductive HasRoom (s₀ : Engine π κ) (room : Nat) :
    List SlotId → (SlotId → Value → Act π κ Unit) → Prop
  | within {active : List SlotId} {allowance : Nat} (h : room ≤ allowance) :
    HasRoom s₀ room active (enterWithin allowance)
  | top (h : room ≤ s₀.config.maxDepth) : HasRoom s₀ room [] setInput

/-- Delivering to the listeners is what has been handed down, whatever the way to enter inputs, if it
has room enough. -/
def Conveys (s₀ : Engine π κ) (room hops : Nat) (out : Value → Act π κ Unit)
    (listeners : List Listener) : Prop :=
  ∀ active enter, HasRoom s₀ room active enter → Delivers s₀ active enter hops out listeners

/-- Where there is room, there is room for less. -/
theorem HasRoom.mono {room room' : Nat} {enter : SlotId → Value → Act π κ Unit}
    (h : HasRoom s₀ room active enter) (hle : room' ≤ room) : HasRoom s₀ room' active enter := by
  cases h with
  | within h => exact .within (Nat.le_trans hle h)
  | top h => exact .top (Nat.le_trans hle h)

variable {room hops : Nat} {out : Value → Act π κ Unit} {listeners : List Listener}

/-- What is conveyed with some room and some hops is conveyed with more. -/
theorem Conveys.mono {room' hops' : Nat} (h : Conveys s₀ room hops out listeners)
    (hroom : room ≤ room') (hhops : hops ≤ hops') : Conveys s₀ room' hops' out listeners :=
  fun active enter henter more hmore => h active enter (henter.mono (by omega)) more
    (Nat.le_trans hhops hmore)

/-- To no listeners nothing is handed down. -/
theorem conveys_nil : Conveys s₀ room hops (fun _ => return ()) [] :=
  fun _ _ _ _ _ _ => .pure ()

/-- Delivering to a single listener. -/
theorem conveys_singleton {listener : Listener}
    (h : ∀ active enter, HasRoom s₀ room active enter → ∀ more, hops ≤ more → ∀ value,
      Same s₀ active (deliverBy enter (relay enter more) value listener) (out value)) :
    Conveys s₀ room hops out [listener] := by
  intro active enter henter more hmore value
  show Same s₀ active (deliverBy enter (relay enter more) value listener >>= fun _ => pure ()) _
  rw [bind_pure_unit]
  exact h active enter henter more hmore value

/-- The listener of the root puts a value out. -/
theorem conveys_sink : Conveys (κ := κ) (π := π) s₀ room hops sink [.sink] :=
  conveys_singleton fun _ _ _ _ _ => .sink

/-- The listener of a state stores a value. -/
theorem conveys_state (slot : SlotId) : Conveys s₀ room hops (setState slot) [.state slot] :=
  conveys_singleton fun _ _ _ _ _ => .setState slot

omit [Process π] [Condition κ] in
/-- Passing on the output of a place is leaving it. -/
theorem sameIn_relay {enter : SlotId → Value → Act π κ Unit} (hs : At s₀ active s) {i more : Nat}
    {node : Node π κ} (hget : s.arena.get? (slotAt i) = some node)
    (h : Delivers s₀ active enter hops out node.outputs) (hmore : hops ≤ more) (value : Value) :
    SameIn s₀ active (relay enter (more + 1) (slotAt i) value)
      (Plan.leave i node.kind.name out value) s := by
  have hrelay : relay enter (more + 1) (slotAt i) value s =
      node.outputs.forM (deliverBy enter (relay enter more) value)
        (s.traced (.output (slotAt i) node.kind.name value)) := by
    unfold relay
    rw [node?_bind, hget]
    dsimp only
    rw [trace_bind]
  exact (h more hmore value _ (hs.traced _)).congr hrelay (trace_bind _ _)

omit [Process π] [Condition κ] in
/-- What a place sends out. -/
theorem sameIn_emit {enter : SlotId → Value → Act π κ Unit} (hs : At s₀ active s) {i : Nat}
    {node : Node π κ} (hget : s.arena.get? (slotAt i) = some node)
    (h : Delivers s₀ active enter hops out node.outputs) (hhops : hops ≤ s₀.arena.size)
    (value : Value) :
    SameIn s₀ active (emit enter (slotAt i) value) (Plan.leave i node.kind.name out value) s := by
  have hemit : emit enter (slotAt i) value s =
      relay enter ((s.arena.size + 999999) + 1) (slotAt i) value s := get_bind _
  have hsize := hs.wiring.size
  exact (sameIn_relay hs hget h (by omega) value).congr hemit rfl

omit [Process π] [Condition κ] in
/-- Kinds that are wired alike have one name. -/
theorem name_of_wiring {kind kind' : NodeKind π κ} (h : kind.wiring = kind'.wiring) :
    kind.name = kind'.name := by
  cases kind <;> cases kind' <;> cases h <;> rfl

/-- Outputs of the parts of a place, which leave the place, are conveyed if those of the place are. -/
theorem conveys_output {i : Nat} {kind : NodeKind π κ}
    (hget : s₀.arena.get? (slotAt i) = some (.fresh kind listeners))
    (h : Conveys s₀ room hops out listeners) :
    Conveys s₀ room (hops + 1) (Plan.leave i kind.name out) [.output (slotAt i)] := by
  refine conveys_singleton fun active enter henter more hmore value s hs => ?_
  obtain ⟨node, hnode, hwiring, houtputs⟩ := hs.wiring.exists_node hget
  -- One of the hops that are left is used up by passing the output on.
  obtain ⟨less, rfl⟩ : ∃ less, more = less + 1 := ⟨more - 1, by omega⟩
  rw [← name_of_wiring hwiring]
  exact sameIn_relay hs hnode (houtputs ▸ h active enter henter) (by omega) value

/-! ## Entering a place -/

/-- The engine with the input of a node taken down. -/
def noting (slot : SlotId) (node : Node π κ) (kind : String) (input : Value) (s : Engine π κ) :
    Engine π κ :=
  let s := s.traced (.input slot kind input)
  { s with arena := s.arena.set slot { node with input? := some input } }

omit [Process π] [Condition κ] in
/-- The walk takes an input down as the graph does. -/
theorem note_eq {i : Nat} {node : Node π κ} (hget : s.arena.get? (slotAt i) = some node)
    (kind : String) (input : Value) :
    Plan.note i kind input s = .ok () (s.noting (slotAt i) node kind input) := by
  unfold Plan.note
  rw [trace_bind, node?_bind, traced_arena, hget]
  rfl

omit [Process π] [Condition κ] in
/-- What is taken down of an input is the input and nothing else. -/
theorem get?_noting {slot : SlotId} {node : Node π κ} (hget : s.arena.get? slot = some node)
    (kind : String) (input : Value) :
    (s.noting slot node kind input).arena.get? slot = some { node with input? := some input } :=
  Arena.get?_set_self (by rw [traced_arena, hget]) _

omit [Process π] [Condition κ] in
/-- Taking an input down leaves the wiring as it is. -/
theorem At.noting (hs : At s₀ active s) {slot : SlotId} {node : Node π κ}
    (hget : s.arena.get? slot = some node) (kind : String) (input : Value) :
    At s₀ active (s.noting slot node kind input) := by
  rw [← traced_arena (.input slot kind input)] at hget
  exact (hs.traced _).set hget rfl

/-- Entering the input of a place, given what running its node comes to. -/
theorem same_enterWithin {i : Nat} {kind : NodeKind π κ} {allowance : Nat} {input : Value}
    {body : Act π κ Unit} (hget : s₀.arena.get? (slotAt i) = some (.fresh kind listeners))
    (hbody : ∀ active s node, At s₀ active s → s.arena.get? (slotAt i) = some node →
      node.kind.wiring = kind.wiring →
      SameIn s₀ active (runNode (enterWithin allowance) (slotAt i) node input) body s) :
    Same s₀ active (enterWithin (allowance + 1) (slotAt i) input)
      (Plan.within i kind.name input body) := by
  intro s hs
  refine SameIn.nested ?_
  have hs : At s₀ (slotAt i :: active) { s with active := slotAt i :: s.active } :=
    ⟨hs.wiring.trans ⟨rfl, rfl, fun _ => rfl, rfl⟩, by rw [hs.active]⟩
  -- From here on the engine with the input in progress is the one that counts.
  generalize { s with active := slotAt i :: s.active } = s at hs
  obtain ⟨node, hnode, hwiring, -⟩ := hs.wiring.exists_node hget
  rw [← name_of_wiring hwiring]
  refine (hbody _ _ _ (hs.noting hnode _ input) (get?_noting hnode _ input) hwiring).congr ?_
    (bind_of_ok (note_eq hnode _ _))
  unfold storeAndRun
  rw [node?_bind, hnode]
  dsimp only
  rw [trace_bind, setNode_bind]
  rfl

/-- Entering an input in any way that has room, given what entering it within an allowance is. -/
theorem same_of_hasRoom {slot : SlotId} {input : Value} {y : Act π κ Unit}
    (h : ∀ active allowance, room ≤ allowance →
      Same s₀ active (enterWithin allowance slot input) y)
    {enter : SlotId → Value → Act π κ Unit} (henter : HasRoom s₀ room active enter) :
    Same s₀ active (enter slot input) y := by
  cases henter with
  | within hroom => exact h _ _ hroom
  | top hroom =>
    intro s hs
    have hallowance : s.allowance = s₀.config.maxDepth := by
      rw [allowance, depth, hs.active, hs.wiring.config]
      rfl
    have hset : setInput slot input s = enterWithin s₀.config.maxDepth slot input s := by
      unfold setInput
      rw [get_bind, hallowance]
    exact (h [] _ hroom s hs).congr hset rfl

/-! ## Leaves and conditions -/

section Leaves

variable {i : Nat} {kind : NodeKind π κ} {enter : SlotId → Value → Act π κ Unit}
  (hget : s₀.arena.get? (slotAt i) = some (.fresh kind listeners))
  (hdelivers : Delivers s₀ active enter hops out listeners) (hhops : hops ≤ s₀.arena.size)

include hget hdelivers hhops

omit [Process π] [Condition κ] in
/-- What a leaf puts out leaves its place. -/
theorem same_emit (value : Value) :
    Same s₀ active (emit enter (slotAt i) value) (Plan.leave i kind.name out value) := by
  intro s hs
  obtain ⟨node, hnode, hwiring, houtputs⟩ := hs.wiring.exists_node hget
  rw [← name_of_wiring hwiring]
  exact sameIn_emit hs hnode (houtputs ▸ hdelivers) hhops value

omit [Process π] [Condition κ] in
/-- What a leaf asks for is carried out at its place: put out, timed or rendered. -/
theorem same_applyEffect (effect : Effect) :
    Same s₀ active (applyEffect enter (slotAt i) effect)
      (Plan.carryOut i (Plan.leave i kind.name out) effect) := by
  cases effect with
  | emit value => exact same_emit hget hdelivers hhops value
  | emitAfter delay value =>
    intro s hs
    refine ⟨rfl, fun {a s'} hok => ?_⟩
    rw [applyEffect, get_bind] at hok
    cases hclock : s.clock.schedule? delay (.emit (slotAt i) value) with
    | none =>
      rw [hclock] at hok
      cases hok
    | some clock =>
      rw [hclock] at hok
      cases hok
      exact ⟨hs.wiring.trans ⟨rfl, rfl, fun _ => rfl, rfl⟩, hs.active⟩
  | render value =>
    exact (Same.trace _).bind fun _ s hs =>
      .of_ok rfl rfl ⟨hs.wiring.trans ⟨rfl, rfl, fun _ => rfl, rfl⟩, hs.active⟩

/-- Running the node of a process: its state is kept and its announcements are made before anything
that it asks for is done. -/
theorem sameIn_process (hs : At s₀ active s) {node : Node π κ} {name : String} {made : π}
    (hnode : s.arena.get? (slotAt i) = some node) (hkind : node.kind = .process name made)
    (input : Value) :
    SameIn s₀ active (runNode enter (slotAt i) node input)
      (Plan.runLeaf i (Plan.leave i kind.name out) input) s := by
  have hran : At s₀ active { s with
      arena := s.arena.set (slotAt i) (ranNode node name made input) } :=
    hs.set hnode (ranNode_wiring input hkind)
  generalize htexts : (Process.run made input node.state?).announced = texts
  let announced := Engine.announcing texts { s with
    arena := s.arena.set (slotAt i) (ranNode node name made input) }
  have hannounced : At s₀ active announced :=
    ⟨hran.wiring.trans ⟨rfl, rfl, fun _ => rfl, rfl⟩, hran.active⟩
  cases houtcome : (Process.run made input node.state?).outcome with
  | ok effects =>
    have hrun : runNode enter (slotAt i) node input s =
        effects.forM (applyEffect enter (slotAt i)) announced := by
      unfold runNode
      rw [hkind]
      dsimp only
      unfold runProcess
      rw [setNode_bind, bind_of_ok (announce_eq _), htexts, houtcome]
      rfl
    have hwalk : Plan.runLeaf i (Plan.leave i kind.name out) input s =
        effects.forM (Plan.carryOut i (Plan.leave i kind.name out)) announced := by
      unfold Plan.runLeaf
      rw [node?_bind, hnode]
      dsimp only
      rw [hkind]
      dsimp only
      rw [setNode_bind, bind_of_ok (announce_eq _), htexts, houtcome]
      rfl
    refine SameIn.congr hrun hwalk ?_
    exact Same.forM (fun effect _ => same_applyEffect hget hdelivers hhops effect) _ hannounced
  | error cause =>
    have hrun : runNode enter (slotAt i) node input s = fail (.leaf name cause) announced := by
      unfold runNode
      rw [hkind]
      dsimp only
      unfold runProcess
      rw [setNode_bind, bind_of_ok (announce_eq _), htexts, houtcome]
      rfl
    have hwalk : Plan.runLeaf i (Plan.leave i kind.name out) input s =
        fail (.leaf name cause) announced := by
      unfold Plan.runLeaf
      rw [node?_bind, hnode]
      dsimp only
      rw [hkind]
      dsimp only
      rw [setNode_bind, bind_of_ok (announce_eq _), htexts, houtcome]
      rfl
    exact SameIn.congr hrun hwalk (.throw _)

/-- Running the node of a condition: its answer goes to its listeners. -/
theorem sameIn_condition (hs : At s₀ active s) {node : Node π κ} {name : String} {made : κ}
    (hnode : s.arena.get? (slotAt i) = some node) (hkind : node.kind = .condition name made)
    (input : Value) :
    SameIn s₀ active (runNode enter (slotAt i) node input)
      (Plan.runLeaf i (Plan.leave i kind.name out) input) s := by
  cases htest : Condition.test made input node.state? with
  | ok holds =>
    have hrun : runNode enter (slotAt i) node input s = emit enter (slotAt i) (.bool holds) s := by
      unfold runNode
      simp only [hkind, htest]
    have hwalk : Plan.runLeaf i (Plan.leave i kind.name out) input s =
        Plan.leave i kind.name out (.bool holds) s := by
      unfold Plan.runLeaf
      rw [node?_bind, hnode]
      simp only [hkind, htest]
    exact SameIn.congr hrun hwalk (same_emit hget hdelivers hhops (.bool holds) s hs)
  | error cause =>
    have hrun : runNode enter (slotAt i) node input s = fail (.leaf name cause) s := by
      unfold runNode
      simp only [hkind, htest]
    have hwalk : Plan.runLeaf i (Plan.leave i kind.name out) input s =
        fail (.leaf name cause) s := by
      unfold Plan.runLeaf
      rw [node?_bind, hnode]
      simp only [hkind, htest]
    exact SameIn.congr hrun hwalk (.throw _)

/-- Running the node of a leaf is running the leaf. -/
theorem sameIn_runLeaf (hs : At s₀ active s) {node : Node π κ}
    (hnode : s.arena.get? (slotAt i) = some node) (hleaf : node.kind.IsLeaf) (input : Value) :
    SameIn s₀ active (runNode enter (slotAt i) node input)
      (Plan.runLeaf i (Plan.leave i kind.name out) input) s := by
  cases hkind : node.kind with
  | process name made => exact sameIn_process hget hdelivers hhops hs hnode hkind input
  | condition name made => exact sameIn_condition hget hdelivers hhops hs hnode hkind input
  | _ =>
    rw [hkind] at hleaf
    exact hleaf.elim

end Leaves

omit [Process π] in
/-- To ask a condition is to take the input down and to test it. -/
theorem evaluateCondition_eq {slot : SlotId} {node : Node π κ} (hget : s.arena.get? slot = some node)
    (input : Value) :
    evaluateCondition slot input s = (match node.kind with
      | .condition kind made =>
        match Condition.test made input node.state? with
        | .ok holds => return holds
        | .error cause => fail (.leaf kind cause)
      | .constant (.bool holds) => return holds
      | .constant value => fail (.notBool node.kind.name value)
      | kind => fail (.notBool kind.name input)) (s.noting slot node node.kind.name input) := by
  unfold evaluateCondition
  rw [node?_bind, hget]
  dsimp only
  rw [trace_bind, setNode_bind]
  rfl

omit [Process π] in
/-- Asking the node of a condition is asking at its place. -/
theorem same_ask {i : Nat} {kind : NodeKind π κ} {plan : Plan}
    (hget : s₀.arena.get? (slotAt i) = some (.fresh kind listeners)) (hname : kind.name = plan.kindName)
    (hplan : (∃ holds, plan = .constant (.bool holds) ∧ kind = .constant (.bool holds)) ∨
      ∃ t state? made, plan = .leaf t state? ∧ kind = .condition t.kind made) (input : Value) :
    Same s₀ active (evaluateCondition (slotAt i) input) (Plan.ask i plan input) := by
  intro s hs
  obtain ⟨node, hnode, hwiring, -⟩ := hs.wiring.exists_node hget
  have hhead : node.kind.name = plan.kindName := (name_of_wiring hwiring).trans hname
  have hnoted := hs.noting hnode plan.kindName input
  have hself := get?_noting hnode plan.kindName input
  have hnote := note_eq hnode plan.kindName input
  have hevaluate := evaluateCondition_eq hnode input
  rw [hhead] at hevaluate
  generalize s.noting (slotAt i) node plan.kindName input = s' at hnoted hself hnote hevaluate
  rcases hplan with ⟨holds, rfl, rfl⟩ | ⟨t, state?, made, rfl, rfl⟩
  · have hkind : node.kind = .constant (.bool holds) := NodeKind.eq_of_wiring hwiring id
    rw [hkind] at hevaluate
    exact .of_ok hevaluate (bind_of_ok hnote) hnoted
  · have hkind : node.kind = .condition t.kind made := NodeKind.eq_of_wiring hwiring id
    have hask : Plan.ask i (.leaf t state?) input s =
        (match Condition.test made input node.state? with
          | .ok holds => return holds
          | .error cause => fail (.leaf t.kind cause)) s' := by
      unfold Plan.ask
      rw [bind_of_ok hnote]
      dsimp only
      rw [node?_bind, hself]
      dsimp only
      rewrite [hkind]
      rfl
    rw [hkind] at hevaluate
    dsimp only at hevaluate
    refine SameIn.congr hevaluate hask ?_
    cases Condition.test made input node.state? with
    | ok holds => exact .pure hnoted holds
    | error cause => exact .throw _

/-! ## Places -/

open Plan

variable {registry : Registry π κ} {spec : SpecNode} {root : Plan} {declared : Declared}
  {wired : Wired π κ}

omit [Process π] [Condition κ] in
/-- Wiring makes nodes of the kind that the plan is specified by. -/
theorem name_of_kindAt {i : Nat} {plan : Plan} {kind : NodeKind π κ}
    (h : plan.kindAt registry i = .ok kind) : kind.name = plan.kindName := by
  cases plan with
  | component consumers producers =>
    cases h
    rfl
  | conditional conditions positive negative? =>
    cases h
    cases negative? <;> rfl
  | constant value =>
    cases h
    rfl
  | leaf t state? => rcases makeLeaf_eq_ok h with ⟨-, _, rfl⟩ | ⟨-, _, rfl⟩ <;> rfl

/-- Entering an input of a place is a run of the walk, whatever its output is conveyed to. -/
def Walks (s₀ : Engine π κ) (i : Nat) (outputs : List Listener) (plan : Plan) : Prop :=
  ∀ room out, Conveys s₀ room i out outputs →
    ∀ active enter, HasRoom s₀ (plan.size + room) active enter → ∀ value,
      Same s₀ active (enter (slotAt i) value) (plan.run i out value)

/-- Inputs of a place do what the walk does if running its node does what is done with an input there. -/
theorem walks_of_runNode {i : Nat} {plan : Plan} {kind : NodeKind π κ}
    {body : (Value → Act π κ Unit) → Value → Act π κ Unit}
    (hget : s₀.arena.get? (slotAt i) = some (.fresh kind listeners))
    (hkind : plan.kindAt registry i = .ok kind)
    (hrun : ∀ out input, plan.run i out input = within i plan.kindName input (body out input))
    (hbody : ∀ room out, Conveys s₀ room i out listeners →
      ∀ active less, plan.size + room ≤ less + 1 → ∀ input s node, At s₀ active s →
        s.arena.get? (slotAt i) = some node → node.kind.wiring = kind.wiring →
        SameIn s₀ active (runNode (enterWithin less) (slotAt i) node input) (body out input) s) :
    Walks s₀ i listeners plan := by
  intro room out hout active enter henter input
  refine same_of_hasRoom (fun active allowance hroom => ?_) henter
  -- A plan has a node at least, so there is room for one more input.
  have hpos := size_pos plan
  obtain ⟨less, rfl⟩ : ∃ less, allowance = less + 1 := ⟨allowance - 1, by omega⟩
  rw [hrun, ← name_of_kindAt hkind]
  exact same_enterWithin hget fun active s node hs hnode hwiring =>
    hbody room out hout active less hroom input s node hs hnode hwiring

/-- The consumers of a component are the listeners that values are fed to. -/
theorem conveys_targets {owner i : Nat} {consumers : List Consumer} (hi : owner < i)
    (hwalks : ∀ part ∈ numbered i (consumerPlans consumers),
      Walks s₀ part.1 [.output (slotAt owner)] part.2)
    (hup : Conveys s₀ room (owner + 1) out [.output (slotAt owner)]) :
    Conveys s₀ (consumersSize consumers + room) hops (feed i out consumers)
      (targets i consumers) := by
  intro active enter henter more hmore value
  induction consumers generalizing i with
  | nil => exact .pure _
  | cons consumer rest ih =>
    cases consumer with
    | broadcast channel =>
      exact (Same.send channel value).bind fun _ => ih hi hwalks henter
    | node plan =>
      have hsize : consumersSize (.node plan :: rest) = plan.size + consumersSize rest := rfl
      have hplan : Walks s₀ i [.output (slotAt owner)] plan := hwalks _ (List.mem_cons_self ..)
      refine Same.bind ?_ fun _ => ih (by omega)
        (fun part hpart => hwalks part (List.mem_cons_of_mem _ hpart)) (henter.mono (by omega))
      -- What a consumer sends out goes to the component, which was numbered before it.
      exact hplan room out (hup.mono (Nat.le_refl _) hi) active enter (henter.mono (by omega)) value

/-- Passing an input to the producers of a component. -/
theorem same_runProducers {i : Nat} {producers : List Producer}
    {enter : SlotId → Value → Act π κ Unit}
    (hwalks : ∀ part ∈ numbered i (producerPlans producers), Walks s₀ part.1 listeners part.2)
    (hout : Conveys s₀ room hops out listeners) (hhops : hops ≤ i)
    (henter : HasRoom s₀ (producersSize producers + room) active enter) (input : Value) :
    Same s₀ active ((producerSlots i producers).forM fun producer => enter producer input)
      (runProducers i out producers input) := by
  induction producers generalizing i with
  | nil => exact .pure _
  | cons producer rest ih =>
    cases producer with
    | listener key => exact ih hwalks hhops henter
    | node plan =>
      have hsize : producersSize (.node plan :: rest) = plan.size + producersSize rest := rfl
      have hplan : Walks s₀ i listeners plan := hwalks _ (List.mem_cons_self ..)
      refine Same.bind ?_ fun _ => ih
        (fun part hpart => hwalks part (List.mem_cons_of_mem _ hpart)) (by omega)
        (henter.mono (by omega))
      exact hplan room out (hout.mono (Nat.le_refl _) hhops) active enter (henter.mono (by omega))
        input

/-! ## Conditionals -/

omit [Process π] in
/-- Asking the conditions of a conditional. -/
theorem same_askAll {i : Nat} {plans : List Plan} (input : Value)
    (hasks : ∀ part ∈ numbered i plans,
      Same s₀ active (evaluateCondition (slotAt part.1) input) (ask part.1 part.2 input)) :
    Same s₀ active (allHold input (slotsOf i plans)) (askAll i plans input) := by
  induction plans generalizing i with
  | nil => exact .pure _
  | cons plan rest ih =>
    refine Same.bind (hasks (i, plan) (List.mem_cons_self ..)) fun holds => ?_
    cases holds with
    | true => exact ih fun part hpart => hasks part (List.mem_cons_of_mem _ hpart)
    | false => exact .pure _

omit [Process π] in
/-- Running a conditional is asking its conditions and entering a branch. -/
theorem discard_routeBy_eq {enter : SlotId → Value → Act π κ Unit} {slot positive : SlotId}
    {node : Node π κ} {conditions : List SlotId} {negative? : Option SlotId}
    (hget : s.arena.get? slot = some node)
    (hkind : node.kind = .conditional conditions positive negative?) (input : Value) :
    discard (routeBy enter slot input) s = (do
      let matched ← allHold input conditions
      trace (.branch slot (conditionalKind negative?).name matched)
      if matched then enter positive input
      else match negative? with
        | some branch => enter branch input
        | none => return ()) s := by
  obtain ⟨kind, input?, state?, outputs⟩ := node
  obtain rfl : kind = .conditional conditions positive negative? := hkind
  show ((fun _ => ()) <$> routeBy enter slot input) s = _
  unfold routeBy
  rw [map_bind, node?_bind, hget]
  dsimp only
  simp only [map_bind]
  refine congrFun (congrArg (allHold input conditions >>= ·) (funext fun matched => ?_)) s
  refine congrArg (trace _ >>= ·) (funext fun _ => ?_)
  cases matched with
  | true => simp
  | false => cases negative? <;> simp

/-- Running the node of a conditional, given what its parts come to. -/
theorem sameIn_conditional {enter : SlotId → Value → Act π κ Unit} {i : Nat} {node : Node π κ}
    {conditions : List Plan} {positive : Plan} {negative? : Option Plan} {input : Value}
    (hs : At s₀ active s) (hnode : s.arena.get? (slotAt i) = some node)
    (hkind : (Plan.conditional conditions positive negative?).kindAt registry i = .ok node.kind)
    (hconditions : ∀ part ∈ numbered (i + 1 + positive.size + optionalSize negative?) conditions,
      Same s₀ active (evaluateCondition (slotAt part.1) input) (ask part.1 part.2 input))
    (hpositive : Same s₀ active (enter (slotAt (i + 1)) input) (run (i + 1) out positive input))
    (hnegative : ∀ negative, negative? = some negative →
      Same s₀ active (enter (slotAt (i + 1 + positive.size)) input)
        (run (i + 1 + positive.size) out negative input)) :
    SameIn s₀ active (runNode enter (slotAt i) node input) (do
      let matched ←
        askAll (i + 1 + positive.size + optionalSize negative?) conditions input
      trace (.branch (slotAt i) (kindName (.conditional conditions positive negative?)) matched)
      if matched then run (i + 1) out positive input
      else runOptional (i + 1 + positive.size) out negative? input) s := by
  have hname := name_of_kindAt hkind
  have hkind := (Except.ok.inj hkind).symm
  have hrun : runNode enter (slotAt i) node input s =
      discard (routeBy enter (slotAt i) input) s := by
    unfold runNode
    rw [hkind]
  rw [hkind] at hname
  rw [← hname]
  -- Both ask the conditions first and then enter the same branch.
  refine SameIn.congr (hrun.trans (discard_routeBy_eq hnode hkind input)) rfl ?_
  refine ((same_askAll input hconditions).bind fun matched =>
    (Same.trace _).bind fun _ => ?_) s hs
  cases matched with
  | true => exact hpositive
  | false =>
    cases negative? with
    | none => exact .pure ()
    | some negative => exact hnegative negative rfl

end Conveyed

end Engine

/-! ## The places of a wired graph -/

namespace Graph.Assembled

open Engine Plan

variable {π κ : Type} [Process π] [Condition κ] {registry : Registry π κ} {spec : SpecNode}
  {root : Plan} {declared : Declared} {wired : Wired π κ} {active : List SlotId}
  (h : Assembled registry spec root declared wired) (config : Config)

include h

omit [Process π] [Condition κ] in
/-- The node of a place. -/
theorem exists_kind {site : Site} (hsite : site ∈ root.layout) :
    ∃ kind, site.plan.kindAt registry site.number = .ok kind ∧
      (engineOf config wired).arena.get? (slotAt site.number) = some (.fresh kind site.outputs) :=
  h.get?_of_mem hsite

omit [Process π] in
/-- Asking a condition of a wired graph. -/
theorem same_condition {site : Site} (hsite : site ∈ root.layout)
    (hanswers : site.plan.Answers registry.shape?) (input : Value) :
    Same (engineOf config wired) active (evaluateCondition (slotAt site.number) input)
      (ask site.number site.plan input) := by
  obtain ⟨kind, hkind, hget⟩ := h.exists_kind config hsite
  exact same_ask hget (name_of_kindAt hkind) (kind_of_answers hanswers hkind) input

/-- Inputs of a component do what the walk does if those of its parts do. -/
theorem walks_component {i : Nat} {outputs : List Listener} {consumers : List Consumer}
    {producers : List Producer} (hmem : ⟨i, outputs, .component consumers producers⟩ ∈ root.layout)
    (hconsumers : ∀ part ∈ numbered (i + 1) (consumerPlans consumers),
      Walks (engineOf config wired) part.1 [.output (slotAt i)] part.2)
    (hproducers : ∀ part ∈ numbered (i + 1 + consumersSize consumers) (producerPlans producers),
      Walks (engineOf config wired) part.1 (targets (i + 1) consumers) part.2) :
    Walks (engineOf config wired) i outputs (.component consumers producers) := by
  obtain ⟨kind, hkind, hget⟩ := h.exists_kind config hmem
  refine walks_of_runNode hget hkind (fun _ _ => rfl)
    fun room out hout active less hroom input s node hs _ hwiring => ?_
  have hsize : (Plan.component consumers producers).size =
    1 + consumersSize consumers + producersSize producers := rfl
  -- Outputs of consumers leave the component, and outputs of producers are fed to the consumers.
  have hleave := conveys_output hget hout
  rw [name_of_kindAt hkind] at hleave
  have hfeed : Conveys _ (consumersSize consumers + room) 0 _ (targets (i + 1) consumers) :=
    conveys_targets (Nat.lt_succ_self i) hconsumers hleave
  cases hkind
  have hrun : runNode (enterWithin less) (slotAt i) node input =
      (producerSlots (i + 1 + consumersSize consumers) producers).forM
        fun producer => enterWithin less producer input := by
    unfold runNode
    rw [NodeKind.eq_of_wiring hwiring id]
  rw [hrun]
  exact same_runProducers hproducers hfeed (Nat.zero_le _) (.within (by omega)) input s hs

/-- Inputs of a conditional do what the walk does if those of its branches do. -/
theorem walks_conditional {i : Nat} {outputs : List Listener} {conditions : List Plan}
    {positive : Plan} {negative? : Option Plan}
    (hmem : ⟨i, outputs, .conditional conditions positive negative?⟩ ∈ root.layout)
    (hpositive : Walks (engineOf config wired) (i + 1) [.output (slotAt i)] positive)
    (hnegative : ∀ negative, negative? = some negative →
      Walks (engineOf config wired) (i + 1 + positive.size) [.output (slotAt i)] negative) :
    Walks (engineOf config wired) i outputs (.conditional conditions positive negative?) := by
  obtain ⟨kind, hkind, hget⟩ := h.exists_kind config hmem
  obtain ⟨-, -, ⟨-, -, -, hanswers⟩, -⟩ := h.reads_of_mem hmem
  refine walks_of_runNode hget hkind (fun _ _ => rfl)
    fun room out hout active less hroom input s node hs hnode hwiring => ?_
  have hsize : (Plan.conditional conditions positive negative?).size =
    1 + positive.size + optionalSize negative? + listSize conditions := rfl
  -- Outputs of the branches leave the conditional, whose own outputs lead on from there.
  have hleave := conveys_output hget hout
  rw [name_of_kindAt hkind] at hleave
  have hsame : node.kind = kind := NodeKind.eq_of_wiring hwiring (by cases hkind; exact id)
  refine sameIn_conditional hs hnode (hsame ▸ hkind) (fun part hpart => ?_) ?_ ?_
  · exact h.same_condition config (child_mem hmem (Site.condition_mem hpart))
      (hanswers part.2 (of_mem_numbered hpart).1) input
  · exact hpositive room _ hleave active _ (.within (by omega)) input
  · intro negative hsome
    have hnegativeSize : optionalSize negative? = negative.size := by
      rw [hsome]
      rfl
    exact hnegative negative hsome room _ (hleave.mono (Nat.le_refl _) (by omega)) active _
      (.within (by omega)) input

/-- Inputs of a constant do nothing. -/
theorem walks_constant {i : Nat} {outputs : List Listener} {value : Value}
    (hmem : ⟨i, outputs, .constant value⟩ ∈ root.layout) :
    Walks (engineOf config wired) i outputs (.constant value) := by
  obtain ⟨kind, hkind, hget⟩ := h.exists_kind config hmem
  refine walks_of_runNode hget hkind (fun _ _ => rfl)
    fun room out hout active less hroom input s node hs _ hwiring => ?_
  cases hkind
  have hrun : runNode (enterWithin less) (slotAt i) node input = return () := by
    unfold runNode
    rw [NodeKind.eq_of_wiring hwiring id]
  rw [hrun]
  exact .pure hs ()

/-- Inputs of a leaf run the leaf. -/
theorem walks_leaf {i : Nat} {outputs : List Listener} {t : SpecNode} {state? : Option Plan}
    (hmem : ⟨i, outputs, .leaf t state?⟩ ∈ root.layout) :
    Walks (engineOf config wired) i outputs (.leaf t state?) := by
  obtain ⟨kind, hkind, hget⟩ := h.exists_kind config hmem
  refine walks_of_runNode hget hkind (fun _ _ => rfl)
    fun room out hout active less hroom input s node hs hnode hwiring => ?_
  have hpos := size_pos (.leaf t state?)
  have hleaf : kind.IsLeaf := by
    rcases makeLeaf_eq_ok hkind with ⟨-, _, rfl⟩ | ⟨-, _, rfl⟩ <;> trivial
  -- There are more nodes than hops to the root, so the limit for relays is not met.
  have hnumber : i ≤ (engineOf config wired).arena.size := by
    have hsize : (engineOf config wired).arena.size = root.size := h.dense.live_eq
    have hbound : i + (Plan.leaf t state?).size ≤ 0 + root.size := (sites_bounds hmem).2
    omega
  have hname : kind.name = t.kind := name_of_kindAt hkind
  show SameIn _ _ _ (runLeaf i (leave i t.kind out) input) s
  rw [← hname]
  exact sameIn_runLeaf hget (hout active _ (.within (by omega)))
    hnumber hs hnode (NodeKind.ofWiring_isLeaf _ _ hwiring.symm hleaf) input

/-- At every place of a wired graph, inputs do what the walk does. -/
theorem walks {plan : Plan} {i : Nat} {outputs : List Listener}
    (hmem : ⟨i, outputs, plan⟩ ∈ root.layout) : Walks (engineOf config wired) i outputs plan := by
  induction plan using Plan.induct generalizing i outputs with
  | component consumers producers ihc ihp =>
    refine h.walks_component config hmem (fun part hpart => ?_) fun part hpart => ?_
    · exact ihc part.2 (mem_consumerPlans.1 (of_mem_numbered hpart).1)
        (child_mem hmem (Site.consumer_mem hpart))
    · exact ihp part.2 (mem_producerPlans.1 (of_mem_numbered hpart).1)
        (child_mem hmem (Site.producer_mem hpart))
  | conditional conditions positive negative? _ ihp ihn =>
    refine h.walks_conditional config hmem (ihp (child_mem hmem Site.positive_mem)) ?_
    rintro negative rfl
    exact ihn negative rfl (child_mem hmem Site.negative_mem)
  | constant value => exact h.walks_constant config hmem
  | leaf t state? => exact h.walks_leaf config hmem

end Graph.Assembled

end Dataflow
