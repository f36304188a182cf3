import Dataflow.Leaf.Catalogue
import Dataflow.Proofs.Reactions
import Dataflow.Proofs.Teardown

/-!
# The running total

A graph that adds up what it is given. A number goes to an adder whose state is the sum so far. The new
sum leaves through the root, and a broadcast carries it back: on the next tick it becomes the state of
the adder. Between two rounds the graph is known but for its input cells (`tallied`); a push runs through
five inputs before the sum is out (`push_tallied`), and one tick brings the sum home
(`runUntilIdle_tallied`). What a list of numbers comes to follows by induction (`running_total_sums`).
-/

namespace Dataflow

/-- A component that puts out the sum of all numbers it has been given. -/
def SpecNode.runningTotal : SpecNode :=
  let state := .component [.value (.number 0), .listener "total"] [.ofKind "get"]
  .component [.ofKind "get"]
    [.component [(SpecNode.ofKind "add").withState state] [.ofKind "get", .broadcast "total"]]

/-! ## Inputs that lead to one more -/

/-- A run that asks for one value to be sent out, and does nothing else. -/
def Behaviour.emitting {π : Type} (leaf : π) (value : Value) : Behaviour π :=
  ⟨leaf, [], [.request (.emit value)], none⟩

namespace Engine

section

variable {π κ : Type} [Process π] [Condition κ] {s s' : Engine π κ} {slot target : SlotId}
  {node : Node π κ} {input value : Value} {allowance : Nat}

omit [Process π] [Condition κ] in
/-- An act that ends well, done as part of processing an input. -/
theorem nested_of_ok {act : Act π κ Unit} (h : act { s with active := slot :: s.active } = .ok () s') :
    nested slot act s = .ok () { s' with active := s'.active.tail } := by
  rw [nested, h]

/-- A composite passes its input to its only producer. -/
theorem enterWithin_of_producer (hget : s.arena.get? slot = some node)
    (hkind : node.kind = .composite [target])
    (h : enterWithin allowance target input
      (({ s with active := slot :: s.active } : Engine π κ).noting slot node node.kind.name input) =
        .ok () s') :
    enterWithin (allowance + 1) slot input s = .ok () { s' with active := s'.active.tail } := by
  obtain ⟨_, input?, state?, outputs⟩ := node
  obtain rfl : _ = NodeKind.composite [target] := hkind
  refine nested_of_ok ?_
  unfold storeAndRun
  rw [node?_bind]
  dsimp only
  rw [hget]
  dsimp only
  rw [trace_bind, setNode_bind, runNode]
  exact bind_of_ok h

/-- A process sends out the one value that it asks for. -/
theorem enterWithin_of_emit {kind : String} {leaf : π} (hget : s.arena.get? slot = some node)
    (hkind : node.kind = .process kind leaf)
    (hrun : Process.run leaf input node.state? = (Behaviour.emitting leaf value).reaction)
    (h : emit (enterWithin allowance) slot value
      (({ s with active := slot :: s.active } : Engine π κ).reacted slot node kind input
        (.emitting leaf value)) = .ok () s') :
    enterWithin (allowance + 1) slot input s = .ok () { s' with active := s'.active.tail } := by
  have hrequests : ∀ f : Effect → Act π κ PUnit,
      (Behaviour.emitting leaf value).requests.forM f = (f (.emit value) >>= fun _ => pure ()) :=
    fun _ => rfl
  refine nested_of_ok ?_
  rw [storeAndRun_process (enterWithin allowance) (by exact hget) hkind hrun]
  dsimp only [Behaviour.emitting]
  rw [← Behaviour.emitting, hrequests, applyEffect]
  exact bind_of_ok h

omit [Process π] [Condition κ] in
/-- Sending out a value allows for more outputs in a row than are ever needed here. -/
theorem exists_emit_eq (enter : SlotId → Value → Act π κ Unit) (slot : SlotId) (value : Value)
    (s : Engine π κ) : ∃ hops, emit enter slot value s = relay enter (hops + 3) slot value s := by
  obtain ⟨hops, hlimit⟩ : ∃ hops, relayLimit s = hops + 3 :=
    Nat.exists_eq_add_of_le' (Nat.le_trans (by decide : 3 ≤ patience) (Nat.le_add_left ..))
  refine ⟨hops, ?_⟩
  unfold emit
  rw [get_bind, hlimit]

omit [Process π] [Condition κ] in
/-- A value that is sent out to the input of one node. -/
theorem emit_of_input {enter : SlotId → Value → Act π κ Unit} (hget : s.arena.get? slot = some node)
    (houtputs : node.outputs = [.input target])
    (h : enter target value (s.traced (.output slot node.kind.name value)) = .ok () s') :
    emit enter slot value s = .ok () s' := by
  obtain ⟨hops, hemit⟩ := exists_emit_eq enter slot value s
  rw [hemit, relay, node?_bind, hget]
  dsimp only
  rw [trace_bind, houtputs]
  exact bind_of_ok h

end

/-! ## Between two rounds -/

/-- What the input cells hold, by slot numbers. -/
abbrev Inputs := Nat → Option Value

/-- One more input is taken down. -/
def Inputs.note (inputs : Inputs) (i : Nat) (value : Value) : Inputs :=
  fun j => if j = i then some value else inputs j

open CatalogueProcess in
/-- The nodes of the graph in the order of slots, with the sum so far. -/
def tallyNodes (inputs : Inputs) (total : Value) : List (Node CatalogueProcess CatalogueCondition) :=
  [⟨.composite [⟨7, 0⟩], inputs 0, none, [.sink]⟩,
   ⟨.composite [⟨3, 0⟩], inputs 1, none, [.output ⟨0, 0⟩]⟩,
   ⟨.process "get" get, inputs 2, none, [.output ⟨1, 0⟩]⟩,
   ⟨.process "add" add, inputs 3, some total, [.input ⟨2, 0⟩, .broadcast ⟨0⟩]⟩,
   ⟨.composite [⟨6, 0⟩], inputs 4, none, [.state ⟨3, 0⟩]⟩,
   ⟨.process "get" get, inputs 5, none, [.output ⟨4, 0⟩]⟩,
   ⟨.constant (.number 0), inputs 6, none, [.input ⟨5, 0⟩]⟩,
   ⟨.process "get" get, inputs 7, none, [.input ⟨1, 0⟩]⟩]

/-- The engine of the graph with the sum so far, what is queued and what was put out. -/
def tallied (inputs : Inputs) (total : Value) (queue : Array Task) (outputs : Array Value)
    (active : List SlotId) : Engine CatalogueProcess CatalogueCondition where
  config := {}
  arena := ⟨((tallyNodes inputs total).map fun node => ⟨0, some node⟩).toArray, [], 8⟩
  channels := ⟨#[⟨"total", [.input ⟨5, 0⟩]⟩]⟩
  clock := .initial
  queue := queue
  outputs := outputs
  rendered := #[]
  log := #[]
  active := active

variable (inputs : Inputs) (total value : Value) (queue : Array Task) (outputs : Array Value)
  (active : List SlotId) (allowance : Nat)

/-- The task that brings a sum home. -/
def homing (value : Value) : Task := .deliver ⟨0⟩ [.input ⟨5, 0⟩] value

/-- The adder sends out a sum: it is put out and queued on its way home. -/
theorem emit_tallied :
    emit (enterWithin (allowance + 1)) ⟨3, 0⟩ value (tallied inputs total queue outputs active) =
      .ok () (tallied (inputs.note 2 value) total (queue.push (homing value)) (outputs.push value)
        active) := by
  obtain ⟨hops, hemit⟩ := exists_emit_eq (enterWithin (allowance + 1)) ⟨3, 0⟩ value
    (tallied inputs total queue outputs active)
  rw [hemit]
  rfl

/-- The adder answers an input with a sum. -/
def Sums (value total sum : Value) : Prop :=
  Process.run CatalogueProcess.add value (some total) =
    (Behaviour.emitting CatalogueProcess.add sum).reaction

variable {total value} {sum : Value}

theorem enter_adder (hsum : Sums value total sum) :
    enterWithin (allowance + 2) ⟨3, 0⟩ value (tallied inputs total queue outputs active) =
      .ok () (tallied ((inputs.note 3 value).note 2 sum) total (queue.push (homing sum))
        (outputs.push sum) active) := by
  have hemit := emit_tallied (inputs.note 3 value) total sum queue outputs (⟨3, 0⟩ :: active) allowance
  have hget : (tallied inputs total queue outputs active).arena.get? ⟨3, 0⟩ =
      some ⟨.process "add" CatalogueProcess.add, inputs 3, some total, [.input ⟨2, 0⟩, .broadcast ⟨0⟩]⟩ :=
    rfl
  exact enterWithin_of_emit hget rfl hsum hemit

variable {inputs queue outputs}

/-- Inputs from outside may nest as deep as the configuration allows. -/
theorem setInput_tallied {slot : SlotId} {total' : Value} {inputs' : Inputs} {queue' : Array Task}
    {outputs' : Array Value}
    (h : enterWithin (251 + 5) slot value (tallied inputs total queue outputs []) =
      .ok () (tallied inputs' total' queue' outputs' [])) :
    setInput slot value (tallied inputs total queue outputs []) =
      .ok () (tallied inputs' total' queue' outputs' []) := by
  have hallowance : (tallied inputs total queue outputs []).allowance = 251 + 5 := rfl
  unfold setInput
  rw [get_bind, hallowance, h]

/-- A value that is pushed passes the root, a leaf and a component, and comes to the adder. -/
theorem push_tallied (hsum : Sums value total sum) :
    ∃ inputs', setInput ⟨0, 0⟩ value (tallied inputs total queue outputs []) =
      .ok () (tallied inputs' total (queue.push (homing sum)) (outputs.push sum) []) := by
  let atRoot := inputs.note 0 value
  let atLeaf := atRoot.note 7 value
  let atAdder := ((atLeaf.note 1 value).note 3 value).note 2 sum
  -- The inputs nest, so the innermost one, at the adder, is settled first and each of the others by the
  -- one it leads to.
  have hadder := enter_adder (atLeaf.note 1 value) queue outputs [⟨1, 0⟩, ⟨7, 0⟩, ⟨0, 0⟩] 251 hsum
  have hcomponent : (tallied atLeaf total queue outputs [⟨7, 0⟩, ⟨0, 0⟩]).arena.get? ⟨1, 0⟩ =
      some ⟨.composite [⟨3, 0⟩], atLeaf 1, none, [.output ⟨0, 0⟩]⟩ := rfl
  have hcomponents := enterWithin_of_producer hcomponent rfl hadder
  have hrun : (tallied atLeaf total queue outputs [⟨7, 0⟩, ⟨0, 0⟩]).arena.get? ⟨7, 0⟩ =
      some ⟨.process "get" CatalogueProcess.get, some value, none, [.input ⟨1, 0⟩]⟩ := rfl
  have hleaf : (tallied atRoot total queue outputs [⟨0, 0⟩]).arena.get? ⟨7, 0⟩ =
      some ⟨.process "get" CatalogueProcess.get, atRoot 7, none, [.input ⟨1, 0⟩]⟩ := rfl
  have hgets : Process.run CatalogueProcess.get value none =
      (Behaviour.emitting CatalogueProcess.get value).reaction := rfl
  have hleaves := enterWithin_of_emit hleaf rfl hgets (emit_of_input hrun rfl hcomponents)
  have hroot : (tallied inputs total queue outputs []).arena.get? ⟨0, 0⟩ =
      some ⟨.composite [⟨7, 0⟩], inputs 0, none, [.sink]⟩ := rfl
  exact ⟨atAdder, setInput_tallied (enterWithin_of_producer hroot rfl hleaves)⟩

/-- A sum that comes home passes a leaf and a component and becomes the sum so far. -/
theorem home_tallied : runTask (homing value) (tallied inputs total queue outputs []) =
    .ok () (tallied (inputs.note 5 value) value queue outputs []) := by
  obtain ⟨hops, hemit⟩ := exists_emit_eq (enterWithin (251 + 4)) ⟨5, 0⟩ value
    (tallied (inputs.note 5 value) total queue outputs [⟨5, 0⟩])
  have hrelay : relay (enterWithin (251 + 4)) (hops + 3) ⟨5, 0⟩ value
      (tallied (inputs.note 5 value) total queue outputs [⟨5, 0⟩]) =
        .ok () (tallied (inputs.note 5 value) value queue outputs [⟨5, 0⟩]) := rfl
  have hget : (tallied inputs total queue outputs []).arena.get? ⟨5, 0⟩ =
      some ⟨.process "get" CatalogueProcess.get, inputs 5, none, [.output ⟨4, 0⟩]⟩ := rfl
  have hgets : Process.run CatalogueProcess.get value none =
      (Behaviour.emitting CatalogueProcess.get value).reaction := rfl
  exact bind_of_ok (setInput_tallied (enterWithin_of_emit hget rfl hgets (hemit.trans hrelay)))

/-- One tick brings the sum home, and then nothing is left to do. -/
theorem runUntilIdle_tallied :
    runUntilIdle (tallied inputs total #[homing value] outputs []) =
      .ok 1 (tallied (inputs.note 5 value) value #[] outputs []) := by
  have hbatch : runBatch [homing value] (tallied inputs total #[] outputs []) =
      .ok () (tallied (inputs.note 5 value) value #[] outputs []) := by
    rw [runBatch]
    dsimp only
    rw [home_tallied]
    rfl
  have hticks : tick (tallied inputs total #[homing value] outputs []) =
      .ok 1 (tallied (inputs.note 5 value) value #[] outputs []) := by
    rw [tick_eq]
    exact bind_of_ok hbatch
  have hrunnable : makeRunnable .now (tallied inputs total #[homing value] outputs []) =
      .ok true (tallied inputs total #[homing value] outputs []) := rfl
  -- Storing the sum emits nothing, so nothing is queued behind it and the next check finds the engine
  -- idle.
  have hidle : makeRunnable .now (tallied (inputs.note 5 value) value #[] outputs []) =
      .ok false (tallied (inputs.note 5 value) value #[] outputs []) := rfl
  have hdrive : drive .now (99999 + 1) (tallied inputs total #[homing value] outputs []) =
      .ok 99999 (tallied (inputs.note 5 value) value #[] outputs []) := by
    rw [drive_succ_of_runnable hrunnable, bind_of_ok hticks, drive_of_idle hidle]
  have hbudget : (tallied inputs total #[homing value] outputs []).config.maxTicks = 99999 + 1 := rfl
  unfold runUntilIdle
  rw [driveAll_eq, hbudget, bind_of_ok hdrive]
  rfl

end Engine

/-! ## Rounds -/

namespace Graph

open Engine

/-- The sums of the beginnings of a list, each number being added to the sum before it. -/
def sums (total : Float) : List Float → List Float
  | [] => []
  | n :: rest => (n + total) :: sums (n + total) rest

/-- To push each number and run until idle. -/
def rounds (numbers : List Float) : List Operation :=
  numbers.flatMap fun n => [.push (.number n), .runUntilIdle]

/-- The graph between two rounds. -/
def tally (inputs : Inputs) (total : Float) (outputs : Array Value) :
    Graph CatalogueProcess CatalogueCondition :=
  ⟨⟨0, 0⟩, ⟨[("total", ⟨0⟩)]⟩, tallied inputs (.number total) #[] outputs []⟩

theorem build_runningTotal : build Registry.catalogue {} SpecNode.runningTotal =
    .ok (tally (fun i => if i = 5 then some (.number 0) else none) 0 #[]) := by cbv

/-- A round answers well, puts out the sum and makes it the sum so far. -/
theorem round_tally (inputs : Inputs) (total n : Float) (outputs : Array Value) :
    ∃ inputs', ∀ ops, let g := tally inputs' (n + total) (outputs.push (.number (n + total)))
      (tally inputs total outputs).operateAll (.push (.number n) :: .runUntilIdle :: ops) =
        (.ok .done :: .ok (.ticks 1) :: (g.operateAll ops).1, (g.operateAll ops).2) := by
  have hsum : Sums (.number n) (.number total) (.number (n + total)) := rfl
  obtain ⟨inputs', hpush⟩ : ∃ inputs', setInput ⟨0, 0⟩ (.number n)
      (tallied inputs (.number total) #[] outputs []) = .ok () (tallied inputs' _ _ _ []) :=
    push_tallied hsum
  let pushed := { tally inputs total outputs with
    engine := tallied inputs' (.number total) #[homing (.number (n + total))]
      (outputs.push (.number (n + total))) [] }
  have hpushed : (tally inputs total outputs).operate (.push (.number n)) = (.ok .done, pushed) :=
    perform_of_ok (bind_of_ok hpush)
  have hidle : pushed.operate .runUntilIdle = (.ok (.ticks 1), tally _ _ _) :=
    perform_of_ok (bind_of_ok runUntilIdle_tallied)
  refine ⟨inputs'.note 5 (.number (n + total)), fun ops => ?_⟩
  dsimp only
  rw [operateAll, hpushed]
  dsimp only
  rw [operateAll, hidle]

/-- Any number of rounds, from between two rounds. -/
theorem rounds_tally (numbers : List Float) (inputs : Inputs) (total : Float) (outputs : Array Value) :
    ∃ inputs', (tally inputs total outputs).operateAll (rounds numbers) =
      (numbers.flatMap fun _ => [.ok .done, .ok (.ticks 1)],
        tally inputs' (numbers.foldl (fun sum n => n + sum) total)
          (outputs ++ ((sums total numbers).map Value.number).toArray)) := by
  induction numbers generalizing inputs total outputs with
  | nil =>
    refine ⟨inputs, ?_⟩
    rw [sums, List.map_nil, Array.append_empty]
    rfl
  | cons n rest ih =>
    obtain ⟨inputs₁, hround⟩ := round_tally inputs total n outputs
    obtain ⟨inputs', hrest⟩ := ih inputs₁ (n + total) (outputs.push (.number (n + total)))
    have hrounds : rounds (n :: rest) = .push (.number n) :: .runUntilIdle :: rounds rest := rfl
    have houtputs : outputs.push (.number (n + total)) ++
        ((sums (n + total) rest).map Value.number).toArray =
          outputs ++ ((sums total (n :: rest)).map Value.number).toArray := by
      rw [sums, List.map_cons]
      simp
    refine ⟨inputs', ?_⟩
    rw [hrounds, hround, hrest, houtputs]
    rfl

/-- A graph adds up whatever numbers it is given: no round fails, the sums are put out in order, and
after the last round the state is the last sum and nothing is pending. -/
structure AddsUp (g : Graph CatalogueProcess CatalogueCondition) (slot : SlotId)
    (numbers : List Float) : Prop where
  answers : (g.operateAll (rounds numbers)).1 = numbers.flatMap fun _ => [.ok .done, .ok (.ticks 1)]
  outputs : (g.operateAll (rounds numbers)).2.engine.outputs.toList = (sums 0 numbers).map Value.number
  state : (g.operateAll (rounds numbers)).2.stateOf? slot =
    some (.number (numbers.foldl (fun sum n => n + sum) 0))
  idle : (g.operateAll (rounds numbers)).2.engine.isPending = false

theorem addsUp_tally (inputs : Inputs) (numbers : List Float) :
    (tally inputs 0 #[]).AddsUp ⟨3, 0⟩ numbers := by
  obtain ⟨inputs', hrounds⟩ := rounds_tally numbers inputs 0 #[]
  refine ⟨?_, ?_, ?_, ?_⟩
  · rw [hrounds]
  · rw [hrounds]
    simp [tally, tallied]
  · rw [hrounds]
    rfl
  · rw [hrounds]
    rfl

open View in
/-- Whether hops are reported makes no difference to the sums. -/
theorem AddsUp.of_withoutHops {g : Graph CatalogueProcess CatalogueCondition} {slot : SlotId}
    {numbers : List Float} (h : ((withoutHops _ _).graph g).AddsUp slot numbers) : g.AddsUp slot numbers := by
  obtain ⟨hanswers, houtputs, hstate, hidle⟩ := h
  rw [operateAll_withoutHops] at hanswers houtputs hstate hidle
  refine ⟨hanswers, houtputs, ?_, hidle⟩
  simp only [stateOf?, View.graph, View.engine, withoutHops_arena] at hstate
  exact hstate

/-- **The running total computes prefix sums.** With the default limits, traced or not, no push and no
drive ever fails, the outputs are exactly the sums of the beginnings of what was pushed, and after each
round (a list of numbers being any beginning of a longer one) the adder holds the last sum and nothing is
pending. The sums are those of the leaf, rounded at every step. -/
theorem running_total_sums (trace : Bool) :
    ∃ g slot, build Registry.catalogue { trace } SpecNode.runningTotal = .ok g ∧
      g.find "add" = [slot] ∧ ∀ numbers, g.AddsUp slot numbers := by
  cases trace with
  | false => exact ⟨_, ⟨3, 0⟩, build_runningTotal, rfl, addsUp_tally _⟩
  | true =>
    have hbuild := build_withoutHops Registry.catalogue {} SpecNode.runningTotal
    rw [show ({ ({} : Config) with trace := false } : Config) = {} from rfl, build_runningTotal] at hbuild
    cases htraced : build Registry.catalogue { trace := true } SpecNode.runningTotal with
    | error stop =>
      rw [htraced] at hbuild
      cases stop <;> cases hbuild
    | ok g =>
      rw [htraced] at hbuild
      have hview : tally _ 0 #[] = (View.withoutHops _ _).graph g := Except.ok.inj hbuild
      refine ⟨g, ⟨3, 0⟩, rfl, ?_, fun numbers => .of_withoutHops (hview ▸ addsUp_tally _ numbers)⟩
      have hfind : ((View.withoutHops _ _).graph g).find "add" = [⟨3, 0⟩] := hview ▸ rfl
      simp only [find, View.graph, View.engine, View.withoutHops_arena] at hfind
      exact hfind

end Graph

end Dataflow
