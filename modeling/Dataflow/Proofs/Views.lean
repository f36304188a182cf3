import Dataflow.Proofs.History

/-!
# Views

A view of an engine sees its leaves as leaves of other types and, if it hides hops, an engine that is
not traced and a log without them. Whatever the engine does, the view does as well: acting and then
looking is looking and then acting. This needs that the leaves that are run behave like what is seen
of them, but only where they are run, so the condition on leaves is asked of the states that an
invariant allows, and of the nodes within reach.

Two uses of views are forgetting that a graph is traced, and forgetting that its leaves are watched.
-/

namespace Dataflow

/-! ## Arenas -/

namespace Arena

variable {ν μ : Type}

/-- The arena with every node seen through a function. -/
def map (f : ν → μ) (a : Arena ν) : Arena μ where
  entries := a.entries.map fun entry => ⟨entry.generation, entry.node?.map f⟩
  free := a.free
  live := a.live

/-- What is looked up in the view of an arena is the view of what is looked up. -/
theorem get?_map (f : ν → μ) (a : Arena ν) (slot : SlotId) :
    (a.map f).get? slot = (a.get? slot).map f := by
  simp only [get?, map, Array.getElem?_map]
  cases h : a.entries[slot.index]? with
  | none => rfl
  | some entry =>
    by_cases hg : entry.generation = slot.generation <;> simp [hg]

theorem map_setNode (f : ν → μ) (a : Arena ν) (index : Nat) (node : ν) :
    (a.setNode index (some node)).map f = (a.map f).setNode index (some (f node)) := by
  simp only [setNode, map]
  congr 1
  ext i hi hi'
  · simp
  · simp only [Array.getElem_map, Array.getElem_modify]
    split <;> rfl

/-- To set a node and then look is to look and then set. -/
theorem map_set (f : ν → μ) (a : Arena ν) (slot : SlotId) (node : ν) :
    (a.set slot node).map f = (a.map f).set slot (f node) := by
  have hvalid : (a.map f).isValid slot = a.isValid slot := by
    rw [isValid, get?_map, Option.isSome_map, isValid]
  unfold set
  rw [hvalid]
  split
  · exact map_setNode f a slot.index node
  · rfl

/-- A view hands out the same identifiers. -/
theorem nextSlot_map (f : ν → μ) (a : Arena ν) : (a.map f).nextSlot = a.nextSlot := by
  unfold nextSlot map
  dsimp only
  cases a.free with
  | nil => simp
  | cons index rest =>
    simp only [Array.getElem?_map]
    cases a.entries[index]? <;> rfl

/-- A node that is added is seen as it is added. -/
theorem map_alloc (f : ν → μ) (a : Arena ν) (node : ν) :
    (a.alloc node).map f = (a.map f).alloc (f node) := by
  obtain ⟨entries, free, live⟩ := a
  cases free with
  | nil => simp [alloc, map]
  | cons index rest =>
    have h := congrArg Arena.entries (map_setNode f ⟨entries, index :: rest, live⟩ index node)
    exact congrArg (Arena.mk · rest (live + 1)) h

end Arena

/-! ## Views -/

/-- A way to look at an engine: how its leaves are seen, and whether hops are hidden. -/
structure View (π π' κ κ' : Type) where
  process : π → π'
  condition : κ → κ'
  hidesHops : Bool

namespace View

variable {π π' κ κ' : Type} (v : View π π' κ κ')

/-- What is seen of a kind. -/
def kind : NodeKind π κ → NodeKind π' κ'
  | .placeholder => .placeholder
  | .composite producers => .composite producers
  | .conditional conditions positive negative? => .conditional conditions positive negative?
  | .constant value => .constant value
  | .process kind leaf => .process kind (v.process leaf)
  | .condition kind leaf => .condition kind (v.condition leaf)

/-- What is seen of a node. -/
def node (n : Node π κ) : Node π' κ' := ⟨v.kind n.kind, n.input?, n.state?, n.outputs⟩

/-- What is seen of a configuration. -/
def config (c : Config) : Config := if v.hidesHops then { c with trace := false } else c

/-- What is seen of a log. -/
def log (events : Array Event) : Array Event :=
  if v.hidesHops then events.filter fun event => !event.isHop else events

/-- What is seen of an engine. -/
def engine (s : Engine π κ) : Engine π' κ' where
  config := v.config s.config
  arena := s.arena.map v.node
  channels := s.channels
  clock := s.clock
  queue := s.queue
  outputs := s.outputs
  rendered := s.rendered
  log := v.log s.log
  active := s.active

/-- What is seen of the outcome of an act. -/
def result {α : Type} : EStateM.Result Stop (Engine π κ) α → EStateM.Result Stop (Engine π' κ') α
  | .ok a s => .ok a (v.engine s)
  | .error stop s => .error stop (v.engine s)

/-- Views leave names alone. -/
@[simp] theorem kind_name (k : NodeKind π κ) : (v.kind k).name = k.name := by cases k <;> rfl

@[simp] theorem config_maxDepth (c : Config) : (v.config c).maxDepth = c.maxDepth := by
  unfold config
  split <;> rfl

@[simp] theorem config_maxTicks (c : Config) : (v.config c).maxTicks = c.maxTicks := by
  unfold config
  split <;> rfl

/-- Only hops can be dropped from a log. -/
theorem log_push {event : Event} (h : event.isHop = false) (events : Array Event) :
    v.log (events.push event) = (v.log events).push event := by
  unfold log
  split
  · exact Array.filter_push_of_pos (by simp [h]) (by simp)
  · rfl

/-- Nodes are seen where they are. -/
theorem engine_get? (s : Engine π κ) (slot : SlotId) :
    (v.engine s).arena.get? slot = (s.arena.get? slot).map v.node := Arena.get?_map ..

theorem engine_set (s : Engine π κ) (slot : SlotId) (n : Node π κ) :
    v.engine { s with arena := s.arena.set slot n } =
      { v.engine s with arena := (v.engine s).arena.set slot (v.node n) } := by
  rw [engine, Arena.map_set]
  rfl

/-- A hop is seen in the log exactly where the view traces. -/
theorem engine_traced (hop : Hop) (s : Engine π κ) :
    v.engine (s.traced hop) = (v.engine s).traced hop := by
  -- A view that hides hops does not trace either, so neither side adds to the log.
  unfold Engine.traced
  by_cases hhides : v.hidesHops
  · have hoff : (v.engine s).config.trace = false := by simp [engine, config, hhides]
    rw [hoff]
    split
    · simp [engine, log, hhides, Event.isHop]
    · rfl
  · have hconfig : (v.engine s).config = s.config := by simp [engine, config, hhides]
    rw [hconfig]
    split
    · simp [engine, log, config, hhides]
    · rfl

/-- Announcements are no hops, so every view keeps them. -/
theorem engine_announcing (texts : List String) (s : Engine π κ) :
    v.engine (s.announcing texts) = (v.engine s).announcing texts := by
  induction texts generalizing s with
  | nil => rfl
  | cons text texts ih =>
    have hpush : v.engine { s with log := s.log.push (.announced text) } =
        { v.engine s with log := (v.engine s).log.push (.announced text) } := by
      rw [engine, log_push v rfl]
      rfl
    have hcons : ∀ {σ σ' : Type} (s : Engine σ σ'), s.announcing (text :: texts) =
        Engine.announcing texts { s with log := s.log.push (.announced text) } := fun _ => rfl
    rw [hcons, hcons, ih, hpush]

/-! ## Acts in sequence -/

/-- The view of what an act does is what the other act does to the view. -/
def Sees {α : Type} (act : Act π κ α) (act' : Act π' κ' α) (s : Engine π κ) : Prop :=
  act' (v.engine s) = v.result (act s)

variable {v} {α β : Type} {s : Engine π κ}

/-- Acts in sequence are seen if each of them is. -/
theorem Sees.bind {x : Act π κ α} {x' : Act π' κ' α} {f : α → Act π κ β} {f' : α → Act π' κ' β}
    (hx : v.Sees x x' s) (hf : ∀ a s', x s = .ok a s' → v.Sees (f a) (f' a) s') :
    v.Sees (x >>= f) (x' >>= f') s := by
  unfold Sees at *
  cases h : x s with
  | ok a s' =>
    rw [h] at hx
    rw [Engine.bind_of_ok h, Engine.bind_of_ok hx]
    exact hf a s' h
  | error stop s' =>
    rw [h] at hx
    rw [Engine.bind_of_error h, Engine.bind_of_error hx]
    rfl

theorem sees_pure (a : α) : v.Sees (pure a : Act π κ α) (pure a) s := rfl

theorem Sees.discard {x : Act π κ α} {x' : Act π' κ' α} (hx : v.Sees x x' s) :
    v.Sees (discard x) (discard x') s := by
  show v.Sees (x >>= fun _ => pure PUnit.unit) (x' >>= fun _ => pure PUnit.unit) s
  exact hx.bind fun _ _ _ => sees_pure _

theorem sees_throw (stop : Stop) : v.Sees (throw stop : Act π κ α) (throw stop) s := rfl

/-- To trace is seen, whether the view traces or not. -/
theorem sees_trace (hop : Hop) : v.Sees (Engine.trace hop) (Engine.trace hop) s := by
  rw [Sees, Engine.trace_eq, Engine.trace_eq, ← engine_traced]
  rfl

/-- Warnings are no hops, so every view keeps them. -/
theorem sees_warn (w : Warning) : v.Sees (Engine.warn w) (Engine.warn w) s := by
  have hpush : v.engine { s with log := s.log.push (.warning w) } =
      { v.engine s with log := (v.engine s).log.push (.warning w) } := by
    rw [engine, log_push v rfl]
    rfl
  exact congrArg (EStateM.Result.ok ()) hpush.symm

theorem sees_setNode (slot : SlotId) (n : Node π κ) :
    v.Sees (Engine.setNode slot n) (Engine.setNode slot (v.node n)) s :=
  congrArg (EStateM.Result.ok ()) (engine_set v s slot n).symm

/-- An act that begins by looking up a node. -/
theorem Sees.node? {slot : SlotId} {f : Option (Node π κ) → Act π κ β}
    {f' : Option (Node π' κ') → Act π' κ' β}
    (h : v.Sees (f (s.arena.get? slot)) (f' ((s.arena.get? slot).map v.node)) s) :
    v.Sees (Engine.node? slot >>= f) (Engine.node? slot >>= f') s := by
  rw [Sees, Engine.node?_bind, Engine.node?_bind, engine_get?]
  exact h

/-- An act that begins by looking at the engine. -/
theorem Sees.get {f : Engine π κ → Act π κ β} {f' : Engine π' κ' → Act π' κ' β}
    (h : v.Sees (f s) (f' (v.engine s)) s) : v.Sees (get >>= f) (get >>= f') s := by
  rw [Sees, Engine.get_bind, Engine.get_bind]
  exact h

/-! ## Deliveries that end where they arrive -/

/-- To store a state is seen, as the cells of a node are not changed by a view. -/
theorem sees_setState (slot : SlotId) (value : Value) :
    v.Sees (Engine.setState slot value) (Engine.setState slot value) s := by
  refine .node? ?_
  cases s.arena.get? slot with
  | none => exact sees_warn _
  | some n =>
    dsimp only [Option.map_some]
    rw [View.node, kind_name]
    exact (sees_trace _).bind fun _ s' _ => sees_setNode slot { n with state? := some value }

/-- To send is seen, as channels and queue are not changed by a view. -/
theorem sees_send (id : ChannelId) (value : Value) :
    v.Sees (Engine.send id value) (Engine.send id value) s := by
  refine .get ?_
  dsimp only [View.engine]
  cases s.channels.get? id with
  | none => exact sees_warn _
  | some channel => exact (sees_trace _).bind fun _ s' _ => rfl

theorem sees_sink (value : Value) : v.Sees (Engine.sink value) (Engine.sink value) s := rfl

variable {enter : SlotId → Value → Act π κ Unit} {enter' : SlotId → Value → Act π' κ' Unit}

/-- Whether two ways to enter inputs do the same. -/
def SeesEnter (v : View π π' κ κ') (r : Reach) (Inv : Engine π κ → Prop)
    (enter : SlotId → Value → Act π κ Unit) (enter' : SlotId → Value → Act π' κ' Unit) : Prop :=
  ∀ slot value s, Inv s → r.delivers (.input slot) → v.Sees (enter slot value) (enter' slot value) s

/-- A delivery is seen if entering an input and passing on an output are. -/
theorem sees_deliverBy {r : Reach} {Inv : Engine π κ → Prop} {relay : SlotId → Value → Act π κ Unit}
    {relay' : SlotId → Value → Act π' κ' Unit} (henter : SeesEnter v r Inv enter enter')
    (hrelay : ∀ slot value s, Inv s → r.delivers (.output slot) →
      v.Sees (relay slot value) (relay' slot value) s)
    (hs : Inv s) {listener : Listener} (hr : r.delivers listener) (value : Value) :
    v.Sees (Engine.deliverBy enter relay value listener)
      (Engine.deliverBy enter' relay' value listener) s := by
  cases listener with
  | input slot => exact henter slot value s hs hr
  | output slot => exact hrelay slot value s hs hr
  | state slot => exact sees_setState slot value
  | broadcast channel => exact sees_send channel value
  | sink => exact sees_sink value

/-! ## Faithful views -/

variable [Process π] [Process π'] [Condition κ] [Condition κ']

/-- In the states that an invariant allows, leaves within reach behave like what is seen of them. -/
structure Faithful (v : View π π' κ κ') (r : Reach) (Inv : Engine π κ → Prop) : Prop where
  closed : ∀ {s}, Inv s → r.Closed s
  step : ∀ {s s'}, Inv s → Engine.Step r s s' → Inv s'
  run : ∀ {s slot node kind leaf}, Inv s → r.delivers (.input slot) →
    s.arena.get? slot = some node → node.kind = .process kind leaf → ∀ input,
    Process.run (v.process leaf) input node.state? =
      (Process.run leaf input node.state?).map v.process
  test : ∀ {s slot node kind leaf}, Inv s → r.delivers (.input slot) ∨ r.asks slot →
    s.arena.get? slot = some node → node.kind = .condition kind leaf → ∀ input,
    Condition.test (v.condition leaf) input node.state? = Condition.test leaf input node.state?

section Faithful

variable {r : Reach} {Inv : Engine π κ → Prop} (hv : v.Faithful r Inv)

include hv

/-- What holds in all engines within reach is kept by steps. -/
theorem Faithful.steps {s s' : Engine π κ} (hs : Inv s) (h : Engine.Steps r s s') : Inv s' := by
  induction h with
  | refl => exact hs
  | tail _ hstep ih => exact hv.step ih hstep

/-- An act of two parts, the first of which takes steps. -/
theorem Faithful.bind {x : Act π κ α} {x' : Act π' κ' α} {f : α → Act π κ β}
    {f' : α → Act π' κ' β} (hs : Inv s) (hleads : Engine.Leads r s (x s)) (hx : v.Sees x x' s)
    (hf : ∀ a s', Inv s' → v.Sees (f a) (f' a) s') : v.Sees (x >>= f) (x' >>= f') s := by
  refine hx.bind fun a s' h => hf a s' ?_
  rw [h] at hleads
  exact hv.steps hs hleads.1

/-- A loop is seen if each turn is, from any engine that the turns before may lead to. -/
theorem Faithful.forM {xs : List β} {f : β → Act π κ PUnit} {f' : β → Act π' κ' PUnit} (hs : Inv s)
    (hleads : ∀ x ∈ xs, ∀ s, Inv s → Engine.Leads r s (f x s))
    (h : ∀ x ∈ xs, ∀ s, Inv s → v.Sees (f x) (f' x) s) : v.Sees (xs.forM f) (xs.forM f') s := by
  induction xs generalizing s with
  | nil => exact sees_pure _
  | cons x xs ih =>
    exact hv.bind hs (hleads x (List.mem_cons_self ..) s hs) (h x (List.mem_cons_self ..) s hs)
      fun _ s' hs' => ih hs' (fun x hx => hleads x (List.mem_cons_of_mem _ hx))
        fun x hx => h x (List.mem_cons_of_mem _ hx)

/-! ## Outputs -/

/-- An output that is passed on is seen. By induction on the hops. -/
theorem sees_relay (hleads : Engine.Enters r enter) (henter : SeesEnter v r Inv enter enter')
    (hops : Nat) (slot : SlotId) (value : Value) (s : Engine π κ) (hs : Inv s)
    (hr : r.delivers (.output slot)) :
    v.Sees (Engine.relay enter hops slot value) (Engine.relay enter' hops slot value) s := by
  induction hops generalizing slot value s with
  | zero => exact sees_throw _
  | succ hops ih =>
    refine .node? ?_
    cases hget : s.arena.get? slot with
    | none => exact sees_warn _
    | some n =>
      dsimp only [Option.map_some]
      rw [View.node, kind_name]
      refine (sees_trace _).bind fun _ s₁ htrace => ?_
      rw [Engine.trace_eq] at htrace
      cases htrace
      -- Each listener may find the engine as the ones before it have left it.
      have hlisteners := (hv.closed hs).relayed hr hget
      refine hv.forM (hv.steps hs (.traced hr)) (fun listener hl s hs => ?_) fun listener hl s hs =>
        sees_deliverBy henter ih hs (hlisteners listener hl) value
      exact Engine.leads_deliverBy hleads (Engine.leads_relay hleads hops) (hv.closed hs)
        (hlisteners listener hl) value

theorem sees_emit (hleads : Engine.Enters r enter) (henter : SeesEnter v r Inv enter enter')
    {slot : SlotId} (value : Value) (hs : Inv s) (hr : r.delivers (.output slot)) :
    v.Sees (Engine.emit enter slot value) (Engine.emit enter' slot value) s :=
  .get (sees_relay hv hleads henter _ slot value s hs hr)

theorem sees_deliverTo (hleads : Engine.Enters r enter) (henter : SeesEnter v r Inv enter enter')
    {listener : Listener} (value : Value) (hs : Inv s) (hr : r.delivers listener) :
    v.Sees (Engine.deliverTo enter listener value) (Engine.deliverTo enter' listener value) s :=
  sees_deliverBy henter (fun _ value _ hs hr => sees_emit hv hleads henter value hs hr) hs hr value

/-! ## Conditionals -/

/-- A condition gives the same answer, since its leaf is seen to. -/
theorem sees_evaluateCondition {slot : SlotId} (input : Value) (hs : Inv s) (hr : r.asks slot) :
    v.Sees (Engine.evaluateCondition slot input) (Engine.evaluateCondition slot input) s := by
  refine .node? ?_
  cases hget : s.arena.get? slot with
  | none => exact (sees_warn _).bind fun _ _ _ => sees_pure false
  | some n =>
    -- Said before the kind is known, while `hget` still speaks of the node.
    have htest := fun {kind leaf} (hkind : n.kind = .condition kind leaf) =>
      hv.test hs (.inr hr) hget hkind
    obtain ⟨kind, input?, state?, outputs⟩ := n
    dsimp only [Option.map_some, View.node]
    rw [kind_name]
    refine (sees_trace _).bind fun _ s₁ _ => (sees_setNode slot _).bind fun _ s₂ _ => ?_
    cases kind with
    | condition kind leaf =>
      have htest := htest rfl input
      dsimp only [View.kind] at htest ⊢
      rw [htest]
      cases Condition.test leaf input state? with
      | ok holds => exact sees_pure holds
      | error cause => exact sees_throw _
    | constant value => cases value <;> exact (by first | exact sees_pure _ | exact sees_throw _)
    | _ => exact sees_throw _

/-- Conditions are seen to answer alike, and so to be asked up to the same one. -/
theorem sees_allHold (input : Value) {conditions : List SlotId} (hs : Inv s)
    (hr : ∀ condition ∈ conditions, r.asks condition) :
    v.Sees (Engine.allHold input conditions) (Engine.allHold input conditions) s := by
  induction conditions generalizing s with
  | nil => exact sees_pure true
  | cons condition rest ih =>
    have hcondition := hr condition (List.mem_cons_self ..)
    refine hv.bind hs (Engine.leads_evaluateCondition input hcondition)
      (sees_evaluateCondition hv input hs hcondition) fun holds s' hs' => ?_
    cases holds with
    | true => exact ih hs' fun c hc => hr c (List.mem_cons_of_mem _ hc)
    | false => exact sees_pure false

/-- A conditional is seen to choose the same branch. -/
theorem sees_routeBy (henter : SeesEnter v r Inv enter enter') {slot : SlotId}
    (input : Value) (hs : Inv s) (hr : r.delivers (.input slot)) :
    v.Sees (Engine.routeBy enter slot input) (Engine.routeBy enter' slot input) s := by
  refine .node? ?_
  cases hget : s.arena.get? slot with
  | none => exact sees_pure false
  | some n =>
    obtain ⟨kind, input?, state?, outputs⟩ := n
    cases kind with
    | conditional conditions positive negative? =>
      obtain ⟨hasks, hpositive, hnegative⟩ := (hv.closed hs).entered hr hget
      refine hv.bind hs (Engine.leads_allHold input (hv.closed hs) hasks)
        (sees_allHold hv input hs hasks) fun matched s₁ hs₁ => ?_
      refine (sees_trace _).bind fun _ s₂ htrace => ?_
      rw [Engine.trace_eq] at htrace
      cases htrace
      have hdue : Engine.HopDue r (.branch slot (conditionalKind negative?).name matched) := trivial
      have hs₂ := hv.steps hs₁ (.traced hdue)
      cases matched with
      | true => exact (henter positive input _ hs₂ hpositive).bind fun _ _ _ => sees_pure true
      | false =>
        cases negative? with
        | none => exact sees_pure false
        | some negative =>
          exact (henter negative input _ hs₂ (hnegative negative rfl)).bind
            fun _ _ _ => sees_pure true
    | _ => exact sees_pure false

/-! ## Runs -/

/-- An effect is seen: what is put off is put off for as long, and what is rendered is rendered. -/
theorem sees_applyEffect (hleads : Engine.Enters r enter) (henter : SeesEnter v r Inv enter enter')
    {slot : SlotId} (effect : Effect) (hs : Inv s) (hr : r.delivers (.output slot)) :
    v.Sees (Engine.applyEffect enter slot effect) (Engine.applyEffect enter' slot effect) s := by
  cases effect with
  | emit value => exact sees_emit hv hleads henter value hs hr
  | emitAfter delay value =>
    refine .get ?_
    dsimp only [View.engine]
    cases s.clock.schedule? delay (.emit slot value) with
    | none => exact sees_throw _
    | some clock => rfl
  | render value => exact (sees_trace _).bind fun _ _ _ => rfl

/-- A process that runs is seen, if the view shows its leaf to do the same. -/
theorem sees_runProcess (hleads : Engine.Enters r enter) (henter : SeesEnter v r Inv enter enter')
    {slot : SlotId} {n : Node π κ} {kind : String} {leaf : π} (input : Value) (hs : Inv s)
    (hr : r.delivers (.input slot)) (hget : s.arena.get? slot = some n)
    (hkind : n.kind = .process kind leaf) :
    v.Sees (Engine.runProcess enter slot n kind leaf input)
      (Engine.runProcess enter' slot (v.node n) kind (v.process leaf) input) s := by
  have hcovers := (hv.closed hs).entered hr hget
  rw [hkind] at hcovers
  have hran : Engine.Step r s _ := .ran input hr hget hkind
  have hrun := hv.run hs hr hget hkind input
  unfold Engine.runProcess
  dsimp only [View.node]
  rw [hrun]
  refine (sees_setNode slot _).bind fun _ s₁ hset => ?_
  cases hset
  -- The effects are carried out after the announcements, and what holds of the engine holds there too.
  have hs₁ := hv.step hs hran
  have hs₂ := hv.steps hs₁ (.announcing (Process.run leaf input n.state?).announced)
  rw [Sees, Engine.bind_of_ok (Engine.announce_eq _), Engine.bind_of_ok (Engine.announce_eq _),
    Reaction.map, ← engine_announcing]
  cases (Process.run leaf input n.state?).outcome with
  | ok effects =>
    refine hv.forM hs₂ (fun effect _ s hs => ?_) fun effect _ s hs =>
      sees_applyEffect hv hleads henter effect hs hcovers.1
    exact Engine.leads_applyEffect hleads effect (hv.closed hs) hcovers.1 hcovers.2
  | error cause => rfl

/-- A node of any kind is seen to do what it does. -/
theorem sees_runNode (hleads : Engine.Enters r enter) (henter : SeesEnter v r Inv enter enter')
    {slot : SlotId} {n : Node π κ} (input : Value) (hs : Inv s) (hr : r.delivers (.input slot))
    (hget : s.arena.get? slot = some n) :
    v.Sees (Engine.runNode enter slot n input) (Engine.runNode enter' slot (v.node n) input) s := by
  have hcovers := (hv.closed hs).entered hr hget
  have htest := fun {kind leaf} (hkind : n.kind = .condition kind leaf) =>
    hv.test hs (.inl hr) hget hkind
  have hprocess := fun {kind leaf} (hkind : n.kind = .process kind leaf) =>
    sees_runProcess hv hleads henter input hs hr hget hkind
  obtain ⟨kind, input?, state?, outputs⟩ := n
  cases kind with
  | placeholder => exact sees_warn _
  | composite producers =>
    exact hv.forM hs (fun producer hp s hs => hleads producer input s (hv.closed hs)
      (hcovers producer hp)) fun producer hp s hs => henter producer input s hs (hcovers producer hp)
  | conditional conditions positive negative? =>
    exact (sees_routeBy hv henter input hs hr).bind fun _ _ _ => sees_pure _
  | constant value => exact sees_pure _
  | process kind leaf => exact hprocess rfl
  | condition kind leaf =>
    have htest := htest rfl input
    unfold Engine.runNode
    dsimp only [View.node, View.kind] at htest ⊢
    rw [htest]
    cases Condition.test leaf input state? with
    | ok holds => exact sees_emit hv hleads henter _ hs hcovers
    | error cause => exact sees_throw _

/-- An input that is stored and run is seen. -/
theorem sees_storeAndRun (hleads : Engine.Enters r enter) (henter : SeesEnter v r Inv enter enter')
    {slot : SlotId} (value : Value) (hs : Inv s) (hr : r.delivers (.input slot)) :
    v.Sees (Engine.storeAndRun enter slot value) (Engine.storeAndRun enter' slot value) s := by
  refine .node? ?_
  cases hget : s.arena.get? slot with
  | none => exact sees_warn _
  | some n =>
    dsimp only [Option.map_some]
    have hname : (v.node n).kind.name = n.kind.name := kind_name v n.kind
    rw [hname]
    refine (sees_trace _).bind fun _ s₁ htrace => ?_
    rw [Engine.trace_eq] at htrace
    cases htrace
    refine (sees_setNode slot _).bind fun _ s₂ hset => ?_
    cases hset
    have hget' : (s.traced (.input slot n.kind.name value)).arena.get? slot = some n := by
      rw [Engine.traced_arena, hget]
    have hdue : Engine.HopDue r (.input slot n.kind.name value) := trivial
    have hsteps := (Engine.Steps.traced hdue).tail (.noted value (.inl hr) hget')
    exact sees_runNode hv hleads henter value (hv.steps hs hsteps) hr (Arena.get?_set_self hget' _)

/-! ## Inputs -/

omit hv [Process π] [Process π'] [Condition κ] [Condition κ'] in
/-- An input that ends is seen to end, however it ends. -/
theorem sees_nested {slot : SlotId} {act : Act π κ Unit} {act' : Act π' κ' Unit}
    (h : v.Sees act act' { s with active := slot :: s.active }) :
    v.Sees (Engine.nested slot act) (Engine.nested slot act') s := by
  have hin : v.engine { s with active := slot :: s.active } =
      { v.engine s with active := slot :: (v.engine s).active } := rfl
  unfold Sees at h ⊢
  rw [hin] at h
  unfold Engine.nested
  rw [h]
  cases act { s with active := slot :: s.active } <;> rfl

/-- To enter an input is seen, whatever the allowance. -/
theorem seesEnter_enterWithin (allowance : Nat) :
    SeesEnter v r Inv (Engine.enterWithin allowance) (Engine.enterWithin allowance) := by
  induction allowance with
  | zero =>
    intro slot value s _ _
    refine .get ?_
    dsimp only [View.engine]
    rw [config_maxDepth]
    exact sees_throw _
  | succ allowance ih =>
    intro slot value s hs hr
    exact sees_nested (sees_storeAndRun hv (Engine.enters_enterWithin allowance) ih value
      (hv.step hs (.focused _)) hr)

/-- An input from outside is seen, as limits are not changed by a view. -/
theorem seesEnter_setInput : SeesEnter v r Inv Engine.setInput Engine.setInput := by
  intro slot value s hs hr
  have hallowance : (v.engine s).allowance = s.allowance := by
    rw [Engine.allowance, Engine.allowance]
    dsimp only [View.engine, Engine.depth]
    rw [config_maxDepth]
  refine .get ?_
  rw [hallowance]
  exact seesEnter_enterWithin hv _ slot value s hs hr

theorem sees_setOutput {slot : SlotId} (value : Value) (hs : Inv s) (hr : r.delivers (.output slot)) :
    v.Sees (Engine.setOutput slot value) (Engine.setOutput slot value) s :=
  sees_emit hv Engine.enters_setInput (seesEnter_setInput hv) value hs hr

theorem sees_deliver {listener : Listener} (value : Value) (hs : Inv s)
    (hr : r.delivers listener) :
    v.Sees (Engine.deliver listener value) (Engine.deliver listener value) s :=
  sees_deliverTo hv Engine.enters_setInput (seesEnter_setInput hv) value hs hr

/-! ## Driving -/

/-- A task is seen to go to the same listeners. -/
theorem sees_runTask {task : Task} (hs : Inv s) (hr : r.Runs task) :
    v.Sees (Engine.runTask task) (Engine.runTask task) s := by
  cases task with
  | deliver channel listeners value =>
    exact hv.forM hs (fun listener hl s hs => Engine.leads_deliver value (hv.closed hs)
      (hr listener hl)) fun listener hl s hs => sees_deliver hv value hs (hr listener hl)
  | emit slot value => exact sees_setOutput hv value hs hr

variable (hdrives : r.Drives)

include hdrives

/-- A batch is seen, and what a failure puts back is the same. -/
theorem sees_runBatch {tasks : List Task} (hs : Inv s) (hr : ∀ task ∈ tasks, r.defers task) :
    v.Sees (Engine.runBatch tasks) (Engine.runBatch tasks) s := by
  induction tasks generalizing s with
  | nil => exact sees_pure _
  | cons task rest ih =>
    have hruns := hdrives task (hr task (List.mem_cons_self ..))
    have hleads := Engine.leads_runTask (hv.closed hs) hruns
    have htask := sees_runTask hv hs hruns
    unfold Sees at htask ⊢
    unfold Engine.runBatch
    rw [htask]
    cases hrun : Engine.runTask task s with
    | ok _ s' =>
      rw [hrun] at hleads
      exact ih (hv.steps hs hleads.1) fun t ht => hr t (List.mem_cons_of_mem _ ht)
    | error stop s' => rfl

/-- A tick is seen, since the same timers are due and the same tasks are queued. -/
theorem sees_tick (hs : Inv s) : v.Sees Engine.tick Engine.tick s := by
  have hmoved : Engine.Step r s _ := .moved
  have hs₁ := hv.step hs hmoved
  have hs₂ := hv.step hs₁ .taken
  rw [Sees, Engine.tick_eq, Engine.tick_eq]
  exact Sees.bind (sees_runBatch hv hdrives hs₂ fun task ht =>
    (hv.closed hs₁).queued task (Array.mem_toList_iff.1 ht)) fun _ _ _ => sees_pure _

omit hv hdrives [Process π] [Process π'] [Condition κ] [Condition κ'] in
/-- The same is runnable, as views change neither queue nor clock. -/
theorem sees_makeRunnable (horizon : Engine.Horizon) :
    v.Sees (Engine.makeRunnable horizon) (Engine.makeRunnable horizon) s := by
  have hrunnable : (v.engine s).isRunnable = s.isRunnable := rfl
  rw [Sees, Engine.makeRunnable_eq, Engine.makeRunnable_eq, hrunnable]
  dsimp only [View.engine]
  split
  · rfl
  · cases s.clock.nextDeadline? with
    | none => rfl
    | some deadline =>
      dsimp only
      split <;> rfl

/-- A drive is seen. By induction on the budget. -/
theorem sees_drive (horizon : Engine.Horizon) (budget : Nat) (hs : Inv s) :
    v.Sees (Engine.drive horizon budget) (Engine.drive horizon budget) s := by
  induction budget generalizing s with
  | zero =>
    refine hv.bind hs (Engine.leads_makeRunnable horizon) (sees_makeRunnable horizon)
      fun runnable s₁ _ => ?_
    cases runnable with
    | true =>
      refine .get ?_
      dsimp only [View.engine]
      rw [config_maxTicks]
      exact sees_throw _
    | false => exact sees_pure _
  | succ budget ih =>
    refine hv.bind hs (Engine.leads_makeRunnable horizon) (sees_makeRunnable horizon)
      fun runnable s₁ hs₁ => ?_
    cases runnable with
    | true =>
      exact hv.bind hs₁ (Engine.leads_discard (Engine.leads_tick hdrives (hv.closed hs₁)))
        ((sees_tick hv hdrives hs₁).bind fun _ _ _ => sees_pure _) fun _ s₂ hs₂ => ih hs₂
    | false => exact sees_pure _

theorem sees_driveAll (horizon : Engine.Horizon) (hs : Inv s) :
    v.Sees (Engine.driveAll horizon) (Engine.driveAll horizon) s := by
  refine .get ?_
  dsimp only [View.engine]
  rw [config_maxTicks]
  exact (sees_drive hv hdrives horizon _ hs).bind fun _ _ _ => sees_pure _

/-- To let time pass is seen, up to the same time. -/
theorem sees_advanceBy (span : Nat) (hs : Inv s) :
    v.Sees (Engine.advanceBy span) (Engine.advanceBy span) s := by
  refine .get ?_
  dsimp only [View.engine]
  cases Duration.add? s.clock.now span with
  | none => exact sees_throw _
  | some target =>
    exact (sees_driveAll hv hdrives (.upTo target) hs).discard.bind fun _ _ _ => rfl

/-! ## Histories -/

/-- What an operation does with a view is what it does with the engine, viewed. -/
theorem sees_act {g : Graph π κ} {g' : Graph π' κ'} (hroot : g'.root = g.root) (hs : Inv s)
    (hr : r.delivers (.input g.root)) (op : Operation) : v.Sees (g.act op) (g'.act op) s := by
  cases op with
  | push value =>
    have hpush := seesEnter_setInput hv g.root value s hs hr
    unfold Graph.act Graph.push
    rw [hroot]
    exact hpush.bind fun _ _ _ => sees_pure _
  | tick => exact (sees_tick hv hdrives hs).bind fun _ _ _ => sees_pure _
  | runUntilIdle => exact (sees_driveAll hv hdrives .now hs).bind fun _ _ _ => sees_pure _
  | advanceBy span => exact (sees_advanceBy hv hdrives span hs).bind fun _ _ _ => sees_pure _
  | settle =>
    exact (sees_driveAll hv hdrives .unbounded hs).discard.bind fun _ _ _ => sees_pure _
  | tap slot =>
    refine Sees.bind (.node? ?_) fun _ _ _ => sees_pure _
    cases s.arena.get? slot with
    | none => exact sees_pure _
    | some n => exact (sees_setNode slot _).bind fun _ _ _ => sees_pure _
  | takeOutputs => rfl
  | takeRendered => rfl

omit hv hdrives in
/-- What is seen of a graph. -/
def graph (v : View π π' κ κ') (g : Graph π κ) : Graph π' κ' := ⟨g.root, g.scope, v.engine g.engine⟩

/-- An operation answers the same in the view of a graph, and leaves the view of what it leaves. -/
theorem operate_graph {g : Graph π κ} (hs : Inv g.engine) (hr : r.delivers (.input g.root))
    (op : Operation) :
    (v.graph g).operate op = ((g.operate op).1, v.graph (g.operate op).2) := by
  have hsees : v.Sees (g.act op) ((v.graph g).act op) g.engine := sees_act hv hdrives rfl hs hr op
  unfold Graph.operate Graph.perform
  rw [show (v.graph g).engine = v.engine g.engine from rfl, hsees]
  cases g.act op g.engine <;> rfl

/-- **Views of histories.** A history of a view is the view of the history. -/
theorem operateAll_graph {g : Graph π κ}
    (hkeep : ∀ {s op s'}, Inv s → Graph.Move r s op s' → Inv s') (hs : Inv g.engine)
    (hr : r.delivers (.input g.root)) (ops : List Operation) :
    (v.graph g).operateAll ops = ((g.operateAll ops).1, v.graph (g.operateAll ops).2) := by
  induction ops generalizing g with
  | nil => rfl
  | cons op ops ih =>
    have hmoves := Graph.operate_moves hdrives (hv.closed hs) hr op
    have hroot := Graph.operate_root g op
    unfold Graph.operateAll
    rw [operate_graph hv hdrives hs hr op]
    dsimp only
    rw [ih (hkeep hs hmoves.move) (hroot ▸ hr)]

end Faithful

end View

end Dataflow
