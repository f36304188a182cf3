import Dataflow.Graph.Build
import Dataflow.Leaf.Script
import Dataflow.Proofs.Walked

/-!
# What a conditional does

A conditional asks its conditions in order, up to the first one that does not hold. Asking takes down
the input in the cell of the condition and reports it, and does nothing else (`Asked`); in particular
it changes no answer, so the answers are those of the engine before the first question
(`Asked.answer_eq`). What is asked is therefore known beforehand, and with it the branch
(`conditionals_route`).
-/

namespace Dataflow

/-! ## Asking -/

/-- The second arena has the same nodes under the same identifiers, and will give out the same
identifiers; only what is in the nodes may differ. -/
structure Arena.SameSlots {ν : Type} (a b : Arena ν) : Prop where
  generations : ∀ i : Nat, (b.entries[i]?).map Entry.generation = (a.entries[i]?).map Entry.generation
  free : b.free = a.free
  live : b.live = a.live

/-- Slots that are the same twice are the same. -/
theorem Arena.SameSlots.trans {ν : Type} {a b c : Arena ν} (h : SameSlots a b) (h' : SameSlots b c) :
    SameSlots a c where
  generations i := (h'.generations i).trans (h.generations i)
  free := h'.free.trans h.free
  live := h'.live.trans h.live

/-- To write into a node changes no slot. -/
theorem Arena.sameSlots_set {ν : Type} (a : Arena ν) (slot : SlotId) (node : ν) :
    SameSlots a (a.set slot node) := by
  unfold set
  split
  · refine ⟨fun i => ?_, rfl, rfl⟩
    rw [setNode, Array.getElem?_modify]
    split
    · rw [Option.map_map]
      rfl
    · rfl
  · exact ⟨fun _ => rfl, rfl, rfl⟩

/-- What a node answers when it is asked as a condition. -/
def Node.answer {π κ : Type} [Condition κ] (node : Node π κ) (input : Value) : Except RunError Bool :=
  match node.kind with
  | .condition kind leaf => (Condition.test leaf input node.state?).mapError (.leaf kind)
  | .constant (.bool holds) => .ok holds
  | .constant value => .error (.notBool Structure.value.name value)
  | kind => .error (.notBool kind.name input)

namespace Engine

variable {π κ : Type} {s s' s'' : Engine π κ} {slot : SlotId} {input : Value} {slots : List SlotId}

/-- What asking a condition reports: the input, if the graph is traced, or that there is no node. -/
def questions (s : Engine π κ) (input : Value) (slot : SlotId) : List Event :=
  match s.arena.get? slot with
  | some node => if s.config.trace then [.hop (.input slot node.kind.name input)] else []
  | none => [.warning (.conditionFreed slot)]

/-- The second engine is the first one after the conditions were asked, in this order: their cells
hold the input, and nothing but the log has changed besides. -/
structure Asked (s : Engine π κ) (input : Value) (slots : List SlotId) (s' : Engine π κ) : Prop where
  cells : ∀ slot, s'.arena.get? slot = (s.arena.get? slot).map fun node =>
    if slot ∈ slots then { node with input? := some input } else node
  identifiers : s.arena.SameSlots s'.arena
  log : s'.log.toList = s.log.toList ++ slots.flatMap (s.questions input)
  rest : s' = { s with arena := s'.arena, log := s'.log }

namespace Asked

theorem refl (s : Engine π κ) (input : Value) : Asked s input [] s where
  cells slot := by simp
  identifiers := ⟨fun _ => rfl, rfl, rfl⟩
  log := by simp
  rest := rfl

theorem config (h : Asked s input slots s') : s'.config = s.config := by rw [h.rest]

/-- What is asked of later conditions does not depend on the questions before. -/
theorem questions_eq (h : Asked s input slots s') : s'.questions input = s.questions input := by
  funext slot
  unfold questions
  rw [h.cells, h.config]
  cases s.arena.get? slot with
  | none => rfl
  | some node =>
    dsimp only [Option.map_some]
    by_cases hslot : slot ∈ slots <;> simp [hslot]

/-- To ask some conditions and then more is to ask them all. -/
theorem trans {more : List SlotId} (h : Asked s input slots s') (h' : Asked s' input more s'') :
    Asked s input (slots ++ more) s'' where
  cells slot := by
    rw [h'.cells, h.cells, Option.map_map]
    congr 1
    funext node
    -- A condition that is asked twice holds the same input as one that is asked once.
    by_cases hslot : slot ∈ slots <;> by_cases hmore : slot ∈ more <;> simp [hslot, hmore]
  identifiers := h.identifiers.trans h'.identifiers
  log := by rw [h'.log, h.log, h.questions_eq, List.flatMap_append, List.append_assoc]
  rest := by rw [h'.rest, h.rest]

/-- To ask a condition that was freed reports just that. -/
theorem of_freed (hget : s.arena.get? slot = none) (input : Value) :
    Asked s input [slot] { s with log := s.log.push (.warning (.conditionFreed slot)) } where
  cells other := by
    by_cases h : other = slot
    · rw [h, hget]
      rfl
    · simp [h]
  identifiers := ⟨fun _ => rfl, rfl, rfl⟩
  log := by simp [questions, hget]
  rest := rfl

/-- To ask a condition that is there notes the input, and reports it if the graph is traced. -/
theorem of_noting {node : Node π κ} (hget : s.arena.get? slot = some node) (input : Value) :
    Asked s input [slot] (s.noting slot node node.kind.name input) := by
  obtain ⟨log, htraced⟩ := traced_eq (.input slot node.kind.name input) s
  -- The hop is in the log exactly if the graph is traced.
  have hlog : log.toList = s.log.toList ++ s.questions input slot := by
    have hlog : log = (s.traced (.input slot node.kind.name input)).log := by rw [htraced]
    rw [hlog, questions, hget, traced]
    dsimp only
    split <;> simp
  unfold noting
  rw [htraced]
  refine ⟨fun other => ?_, s.arena.sameSlots_set slot _, by simp [hlog], rfl⟩
  by_cases h : other = slot
  · subst h
    simp [Arena.get?_set_self hget, hget]
  · simp [Arena.get?_set_of_ne h, h]

end Asked

variable [Condition κ]

/-- What a condition answers to an input. A condition that was freed does not hold. -/
def answer (s : Engine π κ) (input : Value) (slot : SlotId) : Except RunError Bool :=
  match s.arena.get? slot with
  | some node => node.answer input
  | none => .ok false

/-- No answer depends on the questions before. -/
theorem Asked.answer_eq (h : Asked s input slots s') : s'.answer input = s.answer input := by
  funext slot
  unfold answer
  rw [h.cells]
  cases s.arena.get? slot with
  | none => rfl
  | some node =>
    dsimp only [Option.map_some]
    split <;> rfl

/-- Asking a condition gives its answer, and does no more than asking. -/
theorem evaluateCondition_answer (s : Engine π κ) (input : Value) (slot : SlotId) :
    ∃ s', Asked s input [slot] s' ∧
      evaluateCondition slot input s = match s.answer input slot with
        | .ok holds => .ok holds s'
        | .error e => .error (.failed e) s' := by
  cases hget : s.arena.get? slot with
  | none =>
    refine ⟨_, .of_freed hget input, ?_⟩
    unfold evaluateCondition answer
    rw [node?_bind, hget]
    rfl
  | some node =>
    refine ⟨_, .of_noting hget input, ?_⟩
    have hanswer : s.answer input slot = node.answer input := by rw [answer, hget]
    rw [evaluateCondition_eq hget, hanswer, Node.answer]
    obtain ⟨kind, input?, state?, outputs⟩ := node
    cases kind with
    | condition kind leaf =>
      dsimp only
      cases Condition.test leaf input state? <;> rfl
    | constant value => cases value <;> rfl
    | _ => rfl

/-! ## Asking in order -/

/-- How the conditions answer, in order: all of them hold, or the last one that is asked does not
hold or fails. -/
inductive Verdict (s : Engine π κ) (input : Value) (conditions : List SlotId) :
    List SlotId → Except RunError Bool → Prop
  | allHold (h : ∀ condition ∈ conditions, s.answer input condition = .ok true) :
    Verdict s input conditions conditions (.ok true)
  | refused {held rest : List SlotId} {condition : SlotId}
    (hsplit : conditions = held ++ condition :: rest)
    (hheld : ∀ condition ∈ held, s.answer input condition = .ok true)
    (h : s.answer input condition = .ok false) :
    Verdict s input conditions (held ++ [condition]) (.ok false)
  | failed {held rest : List SlotId} {condition : SlotId} {e : RunError}
    (hsplit : conditions = held ++ condition :: rest)
    (hheld : ∀ condition ∈ held, s.answer input condition = .ok true)
    (h : s.answer input condition = .error e) :
    Verdict s input conditions (held ++ [condition]) (.error e)

/-- One more condition that holds is asked first. -/
theorem Verdict.cons {condition : SlotId} {conditions : List SlotId} {verdict : Except RunError Bool}
    (hholds : s.answer input condition = .ok true) (h : Verdict s input conditions slots verdict) :
    Verdict s input (condition :: conditions) (condition :: slots) verdict := by
  cases h with
  | allHold h => exact .allHold (List.forall_mem_cons.2 ⟨hholds, h⟩)
  | refused hsplit hheld h =>
    exact .refused (congrArg (condition :: ·) hsplit) (List.forall_mem_cons.2 ⟨hholds, hheld⟩) h
  | failed hsplit hheld h =>
    exact .failed (congrArg (condition :: ·) hsplit) (List.forall_mem_cons.2 ⟨hholds, hheld⟩) h

/-- No question changes an answer, so the verdict on the rest is that of before. -/
theorem Asked.verdict {asked conditions : List SlotId} {verdict : Except RunError Bool}
    (hasked : Asked s input asked s') (h : Verdict s' input conditions slots verdict) :
    Verdict s input conditions slots verdict := by
  cases h with
  | allHold h => exact .allHold (hasked.answer_eq ▸ h)
  | refused hsplit hheld h => exact .refused hsplit (hasked.answer_eq ▸ hheld) (hasked.answer_eq ▸ h)
  | failed hsplit hheld h => exact .failed hsplit (hasked.answer_eq ▸ hheld) (hasked.answer_eq ▸ h)

/-- Conditions are asked in order, up to the first that does not hold or fails. -/
theorem allHold_verdict (s : Engine π κ) (input : Value) (conditions : List SlotId) :
    ∃ slots verdict s', Verdict s input conditions slots verdict ∧ Asked s input slots s' ∧
      allHold input conditions s = match verdict with
        | .ok matched => .ok matched s'
        | .error e => .error (.failed e) s' := by
  induction conditions generalizing s with
  | nil => exact ⟨[], .ok true, s, .allHold (List.forall_mem_nil _), .refl s input, rfl⟩
  | cons condition rest ih =>
    obtain ⟨s₁, hasked, hevaluate⟩ := evaluateCondition_answer s input condition
    unfold allHold
    cases hanswer : s.answer input condition with
    | error e =>
      rw [hanswer] at hevaluate
      have hverdict : Verdict s input (condition :: rest) ([] ++ [condition]) (.error e) :=
        .failed rfl (List.forall_mem_nil _) hanswer
      exact ⟨[condition], .error e, s₁, hverdict, hasked, bind_of_error hevaluate⟩
    | ok holds =>
      rw [hanswer] at hevaluate
      rw [bind_of_ok hevaluate]
      cases holds with
      | false =>
        have hverdict : Verdict s input (condition :: rest) ([] ++ [condition]) (.ok false) :=
          .refused rfl (List.forall_mem_nil _) hanswer
        exact ⟨[condition], .ok false, s₁, hverdict, hasked, rfl⟩
      | true =>
        obtain ⟨slots, verdict, s₂, hverdict, hrest, heq⟩ := ih s₁
        exact ⟨condition :: slots, verdict, s₂, (hasked.verdict hverdict).cons hanswer,
          hasked.trans hrest, heq⟩

/-! ## The branch -/

/-- What entering a branch comes to, as the answer that a branch has taken the input. -/
def taken : EStateM.Result Stop (Engine π κ) Unit → EStateM.Result Stop (Engine π κ) Bool
  | .ok _ s => .ok true s
  | .error stop s => .error stop s

/-- What a conditional does with an input, given how a branch is entered. In each case the engine `s'`
is all that asking has left, and the branch is entered from there, once. -/
inductive Routes (enter : SlotId → Value → Act π κ Unit) (s : Engine π κ) (slot : SlotId)
    (conditions : List SlotId) (positive : SlotId) (negative? : Option SlotId) (input : Value) :
    EStateM.Result Stop (Engine π κ) Bool → Prop
  /-- A condition fails, and no branch is entered. -/
  | failed {slots : List SlotId} {e : RunError} {s' : Engine π κ}
    (hverdict : Verdict s input conditions slots (.error e)) (hasked : Asked s input slots s') :
    Routes enter s slot conditions positive negative? input (.error (.failed e) s')
  /-- All conditions hold. -/
  | positive {slots : List SlotId} {s' : Engine π κ}
    (hverdict : Verdict s input conditions slots (.ok true)) (hasked : Asked s input slots s') :
    Routes enter s slot conditions positive negative? input
      (taken (enter positive input (s'.traced (.branch slot (conditionalKind negative?).name true))))
  /-- A condition does not hold, and there is another branch. -/
  | negative {slots : List SlotId} {negative : SlotId} {s' : Engine π κ}
    (hverdict : Verdict s input conditions slots (.ok false)) (hasked : Asked s input slots s')
    (hnegative : negative? = some negative) :
    Routes enter s slot conditions positive negative? input
      (taken (enter negative input (s'.traced (.branch slot (conditionalKind negative?).name false))))
  /-- A condition does not hold, and there is no other branch. -/
  | nowhere {slots : List SlotId} {s' : Engine π κ}
    (hverdict : Verdict s input conditions slots (.ok false)) (hasked : Asked s input slots s')
    (hnegative : negative? = none) :
    Routes enter s slot conditions positive negative? input
      (.ok false (s'.traced (.branch slot (conditionalKind negative?).name false)))

/-- However inputs are entered, a conditional routes as its conditions answer. -/
theorem routes_routeBy (enter : SlotId → Value → Act π κ Unit) {node : Node π κ}
    {conditions : List SlotId} {positive : SlotId} {negative? : Option SlotId}
    (hget : s.arena.get? slot = some node)
    (hkind : node.kind = .conditional conditions positive negative?) (input : Value) :
    Routes enter s slot conditions positive negative? input (routeBy enter slot input s) := by
  obtain ⟨kind, input?, state?, outputs⟩ := node
  obtain rfl : kind = _ := hkind
  obtain ⟨slots, verdict, s', hverdict, hasked, hall⟩ := allHold_verdict s input conditions
  -- A branch that was entered and ended well is the answer true.
  have htaken : ∀ branch s₁, (enter branch input >>= fun _ => (return true : Act π κ Bool)) s₁ =
      taken (enter branch input s₁) := fun branch s₁ => by
    cases h : enter branch input s₁ with
    | ok u s₂ => exact bind_of_ok h
    | error stop s₂ => exact bind_of_error h
  unfold routeBy
  rw [node?_bind, hget]
  show Routes enter s slot conditions positive negative? input ((allHold input conditions >>= _) s)
  cases verdict with
  | error e =>
    rw [bind_of_error hall]
    exact .failed hverdict hasked
  | ok matched =>
    rw [bind_of_ok hall, trace_bind]
    cases matched with
    | true =>
      show Routes enter s slot conditions positive negative? input ((enter positive input >>= _) _)
      rw [htaken]
      exact .positive hverdict hasked
    | false =>
      cases negative? with
      | none => exact .nowhere hverdict hasked rfl
      | some negative =>
        show Routes enter s slot conditions positive _ input ((enter negative input >>= _) _)
        rw [htaken]
        exact .negative hverdict hasked rfl

variable [Process π]

/-- **A conditional asks its conditions in order, up to the first that does not hold or fails, and
gives its input to at most one branch.** What it has asked until then has done nothing but take the
input down (`Asked`), and the answer is true exactly if a branch was entered and has ended well. -/
theorem conditionals_route {node : Node π κ} {conditions : List SlotId} {positive : SlotId}
    {negative? : Option SlotId} (hget : s.arena.get? slot = some node)
    (hkind : node.kind = .conditional conditions positive negative?) (input : Value) :
    Routes setInput s slot conditions positive negative? input (runConditional slot input s) :=
  routes_routeBy setInput hget hkind input

end Engine

/-- A registry of a condition that never answers and of a process that passes its input on. -/
def Registry.faltering : Registry Script Test :=
  (empty.extend "broken" (Blueprint.condition (.fail "broken")).factory (by decide)).extend "pass"
    (Blueprint.process ⟨[.emit .input]⟩).factory (by decide)

/-- A switch whose second condition does not hold, and whose third one never answers. -/
def SpecNode.refusing : SpecNode :=
  .switch [.value (.bool true), .value (.bool false), ⟨"broken", []⟩] (.component [] []) ⟨"pass", []⟩

namespace Engine

/-- The wiring of a conditional. -/
def wiring? {π κ : Type} (s : Engine π κ) (slot : SlotId) :
    Option (List SlotId × SlotId × Option SlotId) :=
  match s.arena.get? slot with
  | some { kind := .conditional conditions positive negative?, .. } => some (conditions, positive, negative?)
  | _ => none

/-- The switch never comes to the condition that would fail, and what its other branch passes on is
put out. -/
theorem conditionals_route_in_refusing :
    ∃ (g : Graph Script Test) (conditions : List SlotId) (positive negative : SlotId)
        (s' : Engine Script Test),
      Graph.build Registry.faltering {} SpecNode.refusing = .ok g ∧ conditions.length = 3 ∧
        Routes setInput g.engine g.root conditions positive (some negative) .unit
          (runConditional g.root .unit g.engine) ∧
        runConditional g.root .unit g.engine = .ok true s' ∧ s'.outputs.size = 1 := by
  have hrun : (Graph.build Registry.faltering {} SpecNode.refusing).toOption.map (fun g =>
      (g.engine.wiring? g.root, match runConditional g.root .unit g.engine with
        | .ok entered s' => some (entered, s'.outputs.size)
        | .error _ _ => none)) =
      some (some ([⟨3, 0⟩, ⟨4, 0⟩, ⟨5, 0⟩], ⟨1, 0⟩, some ⟨2, 0⟩), some (true, 1)) := by decide +kernel
  cases h : Graph.build Registry.faltering {} SpecNode.refusing with
  | error stop =>
    rw [h] at hrun
    cases hrun
  | ok g =>
    rw [h] at hrun
    obtain ⟨hwiring, hresult⟩ := Prod.mk.inj (Option.some.inj hrun)
    unfold wiring? at hwiring
    split at hwiring
    · rename_i hget
      cases hwiring
      cases hroute : runConditional g.root .unit g.engine with
      | ok entered s' =>
        rw [hroute] at hresult
        obtain ⟨rfl, hsize⟩ := Prod.mk.inj (Option.some.inj hresult)
        exact ⟨g, _, _, _, s', rfl, rfl, conditionals_route hget rfl .unit, hroute, hsize⟩
      | error stop s' =>
        rw [hroute] at hresult
        cases hresult
    · cases hwiring

end Engine

end Dataflow
