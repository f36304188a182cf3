import Dataflow.Proofs.Unfolding

/-!
# Engines without probes

A probe is a listener that somebody has added to see what a node puts out. Probes are known by their
places among the listeners of their nodes. `Engine.unprobed` takes them away, and has another output log.

What jobs do is blind to this (`Job.start_unprobed`): without probes a job begins as it does with them, and
leads to the same jobs, but for the deliveries to the probes, which are marked. Only the delivery of a
value to the output log depends on what is there.
-/

namespace Dataflow

/-! ## Marks -/

section Marks

variable {α β : Type}

/-- What is not marked. -/
def unmarked (xs : List (α × Bool)) : List α := (xs.filter fun x => !x.2).map Prod.fst

@[simp] theorem unmarked_nil : unmarked ([] : List (α × Bool)) = [] := rfl

@[simp] theorem unmarked_cons (x : α) (mark : Bool) (xs : List (α × Bool)) :
    unmarked ((x, mark) :: xs) = if mark then unmarked xs else x :: unmarked xs := by
  cases mark <;> simp [unmarked]

@[simp] theorem unmarked_append (xs ys : List (α × Bool)) :
    unmarked (xs ++ ys) = unmarked xs ++ unmarked ys := by
  simp [unmarked]

@[simp] theorem unmarked_map_false (xs : List α) : unmarked (xs.map (·, false)) = xs := by
  induction xs with
  | nil => rfl
  | cons x xs ih => simp [ih]

@[simp] theorem map_fst_map_false (xs : List α) : (xs.map (·, false)).map Prod.fst = xs := by
  rw [List.map_map]
  exact List.map_id xs

/-- A function of the elements leaves marks where they are. -/
theorem unmarked_map (f : α → β) (xs : List (α × Bool)) :
    unmarked (xs.map fun x => (f x.1, x.2)) = (unmarked xs).map f := by
  induction xs with
  | nil => rfl
  | cons x xs ih =>
    obtain ⟨x, mark⟩ := x
    cases mark <;> simp [ih]

/-- The place of a listener: its node, and the number of listeners of the node before it. -/
abbrev Place := SlotId × Nat

/-- What comes of the listeners of a node, marked if it comes of a probe. -/
def markAt (probes : List Place) (slot : SlotId) (xs : List α) : List (α × Bool) :=
  xs.zipIdx.map fun x => (x.1, decide ((slot, x.2) ∈ probes))

variable {probes : List Place} {slot : SlotId}

/-- Marks are put beside the elements, which stay. -/
@[simp] theorem map_fst_markAt (xs : List α) : (markAt probes slot xs).map Prod.fst = xs := by
  simp only [markAt, List.map_map, Function.comp_def, List.zipIdx_map_fst]

/-- Marks depend on places and not on what stands there. -/
theorem markAt_map (f : α → β) (xs : List α) :
    markAt probes slot (xs.map f) = (markAt probes slot xs).map fun x => (f x.1, x.2) := by
  simp only [markAt, List.zipIdx_map, List.map_map, Function.comp_def, Prod.map_fst, Prod.map_snd,
    id_eq]

/-- What is marked stands at the place of a probe. -/
theorem mem_markAt_true {x : α} {xs : List α} :
    (x, true) ∈ markAt probes slot xs ↔ ∃ i, (slot, i) ∈ probes ∧ xs[i]? = some x := by
  simp only [markAt, List.mem_map, Prod.mk.injEq, decide_eq_true_eq, Prod.exists]
  constructor
  · rintro ⟨y, i, hmem, rfl, hprobe⟩
    exact ⟨i, hprobe, List.mem_zipIdx_iff_getElem?.1 hmem⟩
  · rintro ⟨i, hprobe, hget⟩
    exact ⟨x, i, List.mem_zipIdx_iff_getElem?.2 hget, rfl, hprobe⟩

/-- One more listener comes last, and is a probe if there is one at its place. -/
theorem markAt_concat (xs : List α) (x : α) :
    markAt probes slot (xs ++ [x]) =
      markAt probes slot xs ++ [(x, decide ((slot, xs.length) ∈ probes))] := by
  simp [markAt, List.zipIdx_append]

/-- Marks depend on the places of the listeners that there are. -/
theorem markAt_congr {probes' : List Place} {xs : List α}
    (h : ∀ i < xs.length, (slot, i) ∈ probes ↔ (slot, i) ∈ probes') :
    markAt probes slot xs = markAt probes' slot xs := by
  refine List.map_congr_left fun x hmem => ?_
  obtain ⟨x, i⟩ := x
  have hlt : i < xs.length := (List.getElem?_eq_some_iff.1 (List.mem_zipIdx_iff_getElem?.1 hmem)).1
  simp only [h i hlt]

/-- Without probes nothing is marked. -/
@[simp] theorem markAt_nil (xs : List α) : markAt [] slot xs = xs.map (·, false) := by
  have hsplit : (fun x : α × Nat => (x.1, decide ((slot, x.2) ∈ ([] : List Place)))) =
      (·, false) ∘ Prod.fst := by
    funext x
    simp
  rw [markAt, hsplit, ← List.map_map, List.zipIdx_map_fst]

end Marks

/-! ## Arenas seen through functions of identifiers -/

namespace Arena

variable {ν μ : Type}

/-- The arena with every node seen through a function of its identifier. -/
def mapSlots (f : SlotId → ν → μ) (a : Arena ν) : Arena μ where
  entries := a.entries.mapIdx fun index entry =>
    ⟨entry.generation, entry.node?.map (f ⟨index, entry.generation⟩)⟩
  free := a.free
  live := a.live

/-- What is found is what was there, seen through the function of its identifier. -/
theorem get?_mapSlots (f : SlotId → ν → μ) (a : Arena ν) (slot : SlotId) :
    (a.mapSlots f).get? slot = (a.get? slot).map (f slot) := by
  simp only [get?, mapSlots, Array.getElem?_mapIdx]
  cases h : a.entries[slot.index]? with
  | none => rfl
  | some entry =>
    by_cases hg : entry.generation = slot.generation
    · obtain ⟨index, generation⟩ := slot
      subst hg
      simp
    · simp [hg]

/-- To set a node and then look is to look and then set. -/
theorem mapSlots_set (f : SlotId → ν → μ) (a : Arena ν) (slot : SlotId) (node : ν) :
    (a.set slot node).mapSlots f = (a.mapSlots f).set slot (f slot node) := by
  have hvalid : (a.mapSlots f).isValid slot = a.isValid slot := by
    rw [isValid, get?_mapSlots, Option.isSome_map, isValid]
  unfold set
  rw [hvalid]
  split
  · rename_i hv
    obtain ⟨old, hold⟩ := isValid_iff.1 hv
    have hentry := get?_eq_some_iff.1 hold
    simp only [setNode, mapSlots]
    congr 1
    ext i hi hi'
    · simp
    · simp only [Array.getElem_mapIdx, Array.getElem_modify]
      split
      · rename_i heq
        subst heq
        obtain ⟨hlt, hgeneration⟩ := Array.getElem?_eq_some_iff.1 hentry
        simp [hgeneration]
      · rfl
  · rfl

/-- A node that is replaced by one that another function sees as the first one sees the node. -/
theorem mapSlots_set_of_eq {f f' : SlotId → ν → μ} {a : Arena ν} {slot : SlotId} {node node' : ν}
    (hget : a.get? slot = some node) (hself : f' slot node' = f slot node)
    (hother : ∀ other n, other ≠ slot → f' other n = f other n) :
    (a.set slot node').mapSlots f' = a.mapSlots f := by
  have hentry := get?_eq_some_iff.1 hget
  rw [set, if_pos (isValid_iff.2 ⟨node, hget⟩)]
  simp only [setNode, mapSlots]
  congr 1
  ext i hi hi'
  · simp
  · simp only [Array.getElem_mapIdx, Array.getElem_modify]
    split
    · rename_i heq
      subst heq
      obtain ⟨hlt, hold⟩ := Array.getElem?_eq_some_iff.1 hentry
      simp [hold, hself]
    · rename_i hne
      have hf : ∀ generation, f' ⟨i, generation⟩ = f ⟨i, generation⟩ := by
        intro generation
        funext n
        exact hother _ n fun heq => hne (congrArg SlotId.index heq).symm
      rw [hf]

/-- The list of nodes is seen node by node. -/
theorem toList_mapSlots (f : SlotId → ν → μ) (a : Arena ν) :
    (a.mapSlots f).toList = a.toList.map fun x => (x.1, f x.1 x.2) := by
  have hzip : ∀ (g : Nat → Entry ν → Entry μ) (entries : List (Entry ν)),
      (entries.mapIdx g).zipIdx = entries.zipIdx.map fun x => (g x.2 x.1, x.2) := by
    intro g entries
    apply List.ext_getElem <;> simp
  rw [toList, toList, mapSlots, Array.toList_mapIdx, hzip, List.filterMap_map, List.map_filterMap]
  congr 1
  funext x
  obtain ⟨entry, index⟩ := x
  simp [Option.map_map, Function.comp_def]

/-- An arena seen as it is. -/
theorem mapSlots_id {f : SlotId → ν → ν} (h : ∀ slot node, f slot node = node) (a : Arena ν) :
    a.mapSlots f = a := by
  obtain ⟨entries, free, live⟩ := a
  have hentry : ∀ index (entry : Entry ν), (⟨entry.generation,
      entry.node?.map (f ⟨index, entry.generation⟩)⟩ : Entry ν) = entry := by
    intro index entry
    have hf : f ⟨index, entry.generation⟩ = id := funext fun node => h _ node
    rw [hf, Option.map_id]
    rfl
  have hentries : entries.mapIdx (fun index entry => (⟨entry.generation,
      entry.node?.map (f ⟨index, entry.generation⟩)⟩ : Entry ν)) = entries := by
    ext i hi hi'
    · simp
    · simp [hentry]
  rw [mapSlots, hentries]

end Arena

/-! ## Engines without probes -/

/-- The node without probes. -/
def Node.unprobed {π κ : Type} (probes : List Place) (slot : SlotId) (n : Node π κ) : Node π κ :=
  { n with outputs := unmarked (markAt probes slot n.outputs) }

namespace Engine

variable {π κ : Type} {α β : Type} {probes : List Place} {outputs : Array Value} {s : Engine π κ}

/-- The engine without probes, and with another output log. -/
def unprobed (probes : List Place) (outputs : Array Value) (s : Engine π κ) : Engine π κ :=
  { s with arena := s.arena.mapSlots (Node.unprobed probes), outputs }

/-- What an act comes to, without probes. -/
def resultUnprobed (probes : List Place) (outputs : Array Value) :
    EStateM.Result Stop (Engine π κ) α → EStateM.Result Stop (Engine π κ) α
  | .ok a s => .ok a (s.unprobed probes outputs)
  | .error stop s => .error stop (s.unprobed probes outputs)

/-- Without probes, and with all of its outputs, an engine is what it is. -/
theorem unprobed_nil (s : Engine π κ) : s.unprobed [] s.outputs = s := by
  have hnode : ∀ slot (n : Node π κ), n.unprobed [] slot = n := by
    intro slot n
    rw [Node.unprobed, markAt_nil, unmarked_map_false]
  rw [unprobed, Arena.mapSlots_id hnode]

/-- A node is found without the probes among its listeners. -/
theorem unprobed_get? (slot : SlotId) :
    (s.unprobed probes outputs).arena.get? slot = (s.arena.get? slot).map (Node.unprobed probes slot) :=
  Arena.get?_mapSlots ..

/-- A node that is set is set without the probes among its listeners. -/
theorem unprobed_set (slot : SlotId) (n : Node π κ) :
    ({ s with arena := s.arena.set slot n } : Engine π κ).unprobed probes outputs =
      { s.unprobed probes outputs with
        arena := (s.unprobed probes outputs).arena.set slot (n.unprobed probes slot) } := by
  rw [unprobed, Arena.mapSlots_set]
  rfl

/-- Traces name nodes and values, and no listeners. -/
theorem unprobed_traced (hop : Hop) (s : Engine π κ) :
    (s.unprobed probes outputs).traced hop = (s.traced hop).unprobed probes outputs := by
  have htrace : (s.unprobed probes outputs).config.trace = s.config.trace := rfl
  unfold traced
  rw [htrace]
  split <;> rfl

/-- One more listener is one more without probes, unless it is a probe. -/
theorem addListener_unprobed {slot : SlotId}
    (h : ∀ n, s.arena.get? slot = some n → (slot, n.outputs.length) ∉ probes) (listener : Listener) :
    addListener slot listener (s.unprobed probes outputs) =
      resultUnprobed probes outputs (addListener slot listener s) := by
  rw [Graph.addListener_eq, Graph.addListener_eq, unprobed_get?]
  cases hget : s.arena.get? slot with
  | none => rfl
  | some n =>
    have hnode : Node.unprobed probes slot { n with outputs := n.outputs ++ [listener] } =
        { n.unprobed probes slot with
          outputs := (n.unprobed probes slot).outputs ++ [listener] } := by
      simp [Node.unprobed, markAt_concat, h n hget]
    dsimp only [Option.map_some, resultUnprobed]
    rw [unprobed_set, hnode]

/-- One more probe is nothing without probes. -/
theorem unprobed_probe {slot : SlotId} {n : Node π κ} (hget : s.arena.get? slot = some n)
    (listener : Listener) :
    ({ s with arena := s.arena.set slot { n with outputs := n.outputs ++ [listener] } } :
        Engine π κ).unprobed ((slot, n.outputs.length) :: probes) outputs =
      s.unprobed probes outputs := by
  let probes' : List Place := (slot, n.outputs.length) :: probes
  have hother : ∀ other (n : Node π κ), other ≠ slot → n.unprobed probes' other = n.unprobed probes other := by
    intro other n hne
    have hmarks : markAt probes' other n.outputs = markAt probes other n.outputs :=
      markAt_congr fun i _ => by simp [probes', hne]
    rw [Node.unprobed, hmarks, Node.unprobed]
  have hself : Node.unprobed probes' slot { n with outputs := n.outputs ++ [listener] } =
      n.unprobed probes slot := by
    have hmarks : markAt probes' slot n.outputs = markAt probes slot n.outputs :=
      markAt_congr fun i hi => by simp [probes', Nat.ne_of_lt hi]
    simp [Node.unprobed, markAt_concat, hmarks, probes']
  rw [unprobed, Arena.mapSlots_set_of_eq hget hself hother]
  rfl

/-! ### Acts that are blind to probes -/

/-- The second act does without probes what the first one does with them. -/
def Blind (probes : List Place) (outputs : Array Value) (act act' : Act π κ α) : Prop :=
  ∀ s, act' (s.unprobed probes outputs) = resultUnprobed probes outputs (act s)

namespace Blind

theorem pure (a : α) : Blind probes outputs (Pure.pure a : Act π κ α) (Pure.pure a) := fun _ => rfl

theorem throw (stop : Stop) :
    Blind probes outputs (MonadExcept.throw stop : Act π κ α) (MonadExcept.throw stop) := fun _ => rfl

/-- Acts in sequence are blind if each of them is. -/
theorem bind {x x' : Act π κ α} {f f' : α → Act π κ β} (hx : Blind probes outputs x x')
    (hf : ∀ a, Blind probes outputs (f a) (f' a)) : Blind probes outputs (x >>= f) (x' >>= f') := by
  intro s
  have hact := hx s
  cases h : x s with
  | ok a s' =>
    rw [h] at hact
    rw [bind_of_ok h, bind_of_ok hact]
    exact hf a s'
  | error stop s' =>
    rw [h] at hact
    rw [bind_of_error h, bind_of_error hact]
    rfl

/-- Acts that look at the engine. -/
theorem get {f f' : Engine π κ → Act π κ β}
    (h : ∀ s, Blind probes outputs (f s) (f' (s.unprobed probes outputs))) :
    Blind probes outputs (MonadState.get >>= f) (MonadState.get >>= f') := by
  intro s
  rw [get_bind, get_bind]
  exact h s s

/-- Acts that begin by looking up a node. -/
theorem node? {slot : SlotId} {f f' : Option (Node π κ) → Act π κ β}
    (h : ∀ n?, Blind probes outputs (f n?) (f' (n?.map (Node.unprobed probes slot)))) :
    Blind probes outputs (Engine.node? slot >>= f) (Engine.node? slot >>= f') := by
  intro s
  rw [node?_bind, node?_bind, unprobed_get?]
  exact h _ s

/-- A node may be replaced, if it is replaced without probes on the other side. -/
theorem setNode (slot : SlotId) (n : Node π κ) :
    Blind probes outputs (Engine.setNode slot n) (Engine.setNode slot (n.unprobed probes slot)) :=
  fun _ => congrArg (EStateM.Result.ok ()) (unprobed_set slot n).symm

/-- Acts that change what is not seen of listeners. -/
theorem change {f : Engine π κ → Engine π κ}
    (h : ∀ s, f (s.unprobed probes outputs) = (f s).unprobed probes outputs) :
    Blind probes outputs (modify f : Act π κ PUnit) (modify f) :=
  fun s => congrArg (EStateM.Result.ok ()) (h s)

theorem report (event : Event) :
    Blind probes outputs (Engine.report event : Act π κ Unit) (Engine.report event) := fun _ => rfl

theorem trace (hop : Hop) :
    Blind probes outputs (Engine.trace hop : Act π κ Unit) (Engine.trace hop) := by
  intro s
  rw [trace_eq, trace_eq, unprobed_traced]
  rfl

/-- A loop is blind if each turn is. -/
theorem forM {xs : List β} {f : β → Act π κ PUnit} (h : ∀ x, Blind probes outputs (f x) (f x)) :
    Blind probes outputs (xs.forM f) (xs.forM f) := by
  induction xs with
  | nil => exact pure _
  | cons x xs ih => exact (h x).bind fun _ => ih

theorem setState (slot : SlotId) (value : Value) :
    Blind probes outputs (Engine.setState slot value : Act π κ Unit) (Engine.setState slot value) := by
  refine node? fun n? => ?_
  cases n? with
  | some n => exact (trace _).bind fun _ => setNode slot { n with state? := some value }
  | none => exact report _

/-- Channels are no nodes, and no probe listens to one. -/
theorem send (id : ChannelId) (value : Value) :
    Blind probes outputs (Engine.send id value : Act π κ Unit) (Engine.send id value) := by
  refine get fun s => ?_
  have hchannels : (s.unprobed probes outputs).channels = s.channels := rfl
  rw [hchannels]
  cases s.channels.get? id with
  | some channel => exact (trace _).bind fun _ => change fun _ => rfl
  | none => exact report _

/-- Whether anything is runnable depends on queue and clock. -/
theorem makeRunnable (horizon : Horizon) :
    Blind probes outputs (Engine.makeRunnable horizon : Act π κ Bool) (Engine.makeRunnable horizon) := by
  intro s
  have hrunnable : (s.unprobed probes outputs).isRunnable = s.isRunnable := rfl
  have hclock : (s.unprobed probes outputs).clock = s.clock := rfl
  rw [makeRunnable_eq, makeRunnable_eq, hrunnable, hclock]
  split
  · rfl
  · cases s.clock.nextDeadline? with
    | none => rfl
    | some deadline =>
      dsimp only
      split <;> rfl

variable [Condition κ]

/-- A condition does not look at listeners. -/
theorem evaluateCondition (slot : SlotId) (input : Value) :
    Blind probes outputs (Engine.evaluateCondition slot input : Act π κ Bool)
      (Engine.evaluateCondition slot input) := by
  refine node? fun n? => ?_
  cases n? with
  | none => exact (report _).bind fun _ => pure false
  | some n =>
    refine (trace _).bind fun _ => (setNode slot { n with input? := some input }).bind fun _ => ?_
    obtain ⟨kind, input?, state?, listeners⟩ := n
    cases kind with
    | condition kind leaf =>
      dsimp only [Node.unprobed]
      cases Condition.test leaf input state? with
      | ok holds => exact pure holds
      | error cause => exact throw _
    | constant value =>
      cases value with
      | bool holds => exact pure holds
      | _ => exact throw _
    | _ => exact throw _

/-- Conditions are asked up to the same one. -/
theorem allHold (input : Value) (conditions : List SlotId) :
    Blind probes outputs (Engine.allHold input conditions : Act π κ Bool)
      (Engine.allHold input conditions) := by
  induction conditions with
  | nil => exact pure true
  | cons condition rest ih =>
    refine (evaluateCondition condition input).bind fun holds => ?_
    cases holds with
    | true => exact ih
    | false => exact pure false

end Blind

end Engine

/-! ## Jobs without probes -/

namespace Job

open Engine

variable {π κ : Type} {probes : List Place} {outputs : Array Value} {s : Engine π κ}

/-- Whether a job delivers to the output log. -/
def IsSink : Job → Prop
  | .deliver _ .sink _ => True
  | _ => False

/-- The jobs that a job leads to, the deliveries to probes marked. -/
def marks (probes : List Place) : Job → List Job → List (Job × Bool)
  | .relay _ slot _, jobs => markAt probes slot jobs
  | _, jobs => jobs.map (·, false)

/-- Marks are put beside the jobs, which stay. -/
@[simp] theorem map_fst_marks (job : Job) (jobs : List Job) :
    (job.marks probes jobs).map Prod.fst = jobs := by
  cases job with
  | relay hops slot value => exact map_fst_markAt jobs
  | _ => exact map_fst_map_false jobs

/-- What a job begins with, without probes. -/
def resultUnprobed (probes : List Place) (outputs : Array Value) (job : Job) :
    EStateM.Result Stop (Engine π κ) (List Job) → EStateM.Result Stop (Engine π κ) (List Job)
  | .ok jobs s => .ok (unmarked (job.marks probes jobs)) (s.unprobed probes outputs)
  | .error stop s => .error stop (s.unprobed probes outputs)

/-- Jobs that do not deliver to probes lead to the same jobs without them. -/
theorem resultUnprobed_of_marks {job : Job} (h : ∀ jobs, job.marks probes jobs = jobs.map (·, false))
    (result : EStateM.Result Stop (Engine π κ) (List Job)) :
    job.resultUnprobed probes outputs result = Engine.resultUnprobed probes outputs result := by
  cases result with
  | ok jobs s => rw [resultUnprobed, h, unmarked_map_false]; rfl
  | error stop s => rfl

/-- A relay leads to a delivery for each listener, and those to probes are the ones that are marked. -/
theorem startRelay_unprobed (hops : Nat) (slot : SlotId) (value : Value) (s : Engine π κ) :
    startRelay hops slot value (s.unprobed probes outputs) =
      (relay hops slot value).resultUnprobed probes outputs (startRelay hops slot value s) := by
  cases hops with
  | zero => rfl
  | succ hops =>
    rw [startRelay, node?_bind, node?_bind, unprobed_get?]
    cases s.arena.get? slot with
    | none => rfl
    | some n =>
      dsimp only [Option.map_some]
      rw [trace_bind, trace_bind, unprobed_traced]
      -- The jobs are marked as the listeners are, since each comes of one.
      have hjobs : unmarked (markAt probes slot (n.outputs.map (deliver hops · value))) =
          (n.unprobed probes slot).outputs.map (deliver hops · value) := by
        rw [markAt_map]
        exact unmarked_map (deliver hops · value) _
      exact congrArg (EStateM.Result.ok · _) hjobs.symm

/-- Only deliveries to the output log depend on what it holds. -/
theorem blind_startDeliver (hops : Nat) (value : Value) {listener : Listener} (h : listener ≠ .sink) :
    Blind probes outputs (startDeliver hops value listener : Act π κ _)
      (startDeliver hops value listener) := by
  cases listener with
  | state slot => exact (Blind.setState slot value).bind fun _ => .pure _
  | broadcast id => exact (Blind.send id value).bind fun _ => .pure _
  | sink => exact absurd rfl h
  | _ => exact .pure _

/-- To hand on a value leads to the same job. -/
theorem blind_startHand (value : Value) (listener : Listener) :
    Blind probes outputs (startHand value listener : Act π κ _) (startHand value listener) := by
  cases listener <;> exact .pure _

/-- Effects depend on no listener. -/
theorem blind_startCarryOut (slot : SlotId) (effect : Effect) :
    Blind probes outputs (startCarryOut slot effect : Act π κ _) (startCarryOut slot effect) := by
  cases effect with
  | emit value => exact .get fun _ => .pure _
  | emitAfter delay value =>
    intro s
    have hclock : (s.unprobed probes outputs).clock = s.clock := rfl
    unfold startCarryOut
    dsimp only
    rw [hclock]
    cases s.clock.schedule? delay (.emit slot value) <;> rfl
  | render value =>
    refine (Blind.trace _).bind fun _ => .bind (.change ?_) fun _ => .pure _
    exact fun _ => rfl

/-- Constants depend on no listener. -/
theorem blind_startKindle (slot : SlotId) :
    Blind probes outputs (startKindle slot : Act π κ _) (startKindle slot) := by
  refine .node? fun n? => ?_
  rcases n? with - | ⟨kind, input?, state?, listeners⟩
  · exact .pure _
  · cases kind <;> exact .pure _

/-- A drive ticks as long as it would without probes. -/
theorem blind_startDrive (horizon : Horizon) (budget : Nat) :
    Blind probes outputs (startDrive horizon budget : Act π κ _) (startDrive horizon budget) := by
  refine (Blind.makeRunnable horizon).bind fun runnable => ?_
  cases runnable with
  | true =>
    cases budget with
    | zero => exact .get fun _ => .throw _
    | succ budget => exact .pure _
  | false =>
    refine .bind (.change ?_) fun _ => .pure _
    exact fun _ => rfl

variable [Condition κ]

/-- A conditional chooses the same branch. -/
theorem blind_startRoute (slot : SlotId) (input : Value) :
    Blind probes outputs (startRoute slot input : Act π κ _) (startRoute slot input) := by
  refine .node? fun n? => ?_
  rcases n? with - | ⟨kind, input?, state?, listeners⟩
  · exact .pure _
  · cases kind with
    | conditional conditions positive negative? =>
      refine (Blind.allHold input conditions).bind fun matched => ?_
      refine (Blind.trace _).bind fun _ => ?_
      cases matched with
      | true => exact .pure _
      | false => cases negative? <;> exact .pure _
    | _ => exact .pure _

variable [Process π]

/-- A node stores its input and runs, and does not look at its listeners. -/
theorem blind_startHandle (slot : SlotId) (value : Value) :
    Blind probes outputs (startHandle slot value : Act π κ _) (startHandle slot value) := by
  refine .node? fun n? => ?_
  cases n? with
  | none => exact (Blind.report _).bind fun _ => .pure _
  | some n =>
    refine (Blind.trace _).bind fun _ =>
      (Blind.setNode slot { n with input? := some value }).bind fun _ => ?_
    obtain ⟨kind, input?, state?, listeners⟩ := n
    cases kind with
    | placeholder => exact (Blind.report _).bind fun _ => .pure _
    | condition kind leaf =>
      dsimp only [Node.unprobed]
      cases Condition.test leaf value state? with
      | ok holds => exact .pure _
      | error cause => exact .throw _
    | process kind leaf =>
      refine (Blind.setNode slot _).bind fun _ => ?_
      refine (Blind.forM fun text => Blind.report (.announced text)).bind fun _ => ?_
      dsimp only [Node.unprobed]
      cases (Process.run leaf value state?).outcome with
      | ok effects => exact .pure _
      | error cause => exact .throw _
    | _ => exact .pure _

/-- **Jobs are blind to probes.** Without probes every job that does not deliver to the output log begins
as it does with them, and leads to the jobs that are not marked. -/
theorem start_unprobed {job : Job} (hjob : ¬job.IsSink) (s : Engine π κ) :
    job.start (s.unprobed probes outputs) = job.resultUnprobed probes outputs (job.start s) := by
  have hblind : (∀ jobs, job.marks probes jobs = jobs.map (·, false)) →
      Blind probes outputs (job.start : Act π κ _) job.start →
      job.start (s.unprobed probes outputs) = job.resultUnprobed probes outputs (job.start s) :=
    fun hmarks h => (h s).trans (resultUnprobed_of_marks hmarks _).symm
  cases job with
  | enter slot value =>
    refine hblind (fun _ => rfl) fun s => ?_
    show startEnter slot value _ = Engine.resultUnprobed _ _ (startEnter slot value s)
    have hallowance : (s.unprobed probes outputs).allowance = s.allowance := rfl
    unfold startEnter
    rw [hallowance]
    split <;> rfl
  | handle slot value => exact hblind (fun _ => rfl) (blind_startHandle slot value)
  | leave => exact hblind (fun _ => rfl) fun _ => rfl
  | route slot input => exact hblind (fun _ => rfl) (blind_startRoute slot input)
  | relay hops slot value => exact startRelay_unprobed hops slot value s
  | deliver hops listener value =>
    refine hblind (fun _ => rfl) (blind_startDeliver hops value ?_)
    rintro rfl
    exact hjob trivial
  | hand listener value => exact hblind (fun _ => rfl) (blind_startHand value listener)
  | carryOut slot effect => exact hblind (fun _ => rfl) (blind_startCarryOut slot effect)
  | kindle slot => exact hblind (fun _ => rfl) (blind_startKindle slot)
  | batch tasks => cases tasks <;> exact hblind (fun _ => rfl) fun _ => rfl
  | tick => exact hblind (fun _ => rfl) fun _ => rfl
  | drive horizon budget => exact hblind (fun _ => rfl) (blind_startDrive horizon budget)

end Job

end Dataflow
