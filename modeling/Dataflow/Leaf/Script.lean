import Dataflow.Leaf.Registry

/-!
# Scripted leaves

Leaves whose behaviour is given as data: a process is a list of actions carried out in order on each
input, and a condition is one of a few tests. A scripted kind may also refuse every specification,
or take its behaviour from a property of the specification.
-/

namespace Dataflow

/-! ## Processes -/

/-- A value an action works with. -/
inductive Operand where
  | input
  /-- The state at that point of the run; the unit if it is empty. -/
  | state
  | literal (v : Value)
  deriving Repr, BEq

/-- The value of the operand. -/
def Operand.eval (input : Value) (state? : Option Value) : Operand → Value
  | .input => input
  | .state => state?.getD .unit
  | .literal v => v

/-- A step of a scripted process. -/
inductive Action where
  | emit (x : Operand)
  | emitAfter (delay : Nat) (x : Operand)
  | render (x : Operand)
  | setState (x : Operand)
  | fail (message : String)
  deriving Repr, BEq

/-- A scripted process. -/
structure Script where
  actions : List Action
  deriving Repr, BEq

/-- Carries out actions for an input: the last state written, if any, and the requested effects, or
why the run fails. The state counts as empty unless given. -/
def Action.perform (input : Value) (state? : Option Value) :
    List Action → Option Value × Except LeafError (List Effect)
  | [] => (none, .ok [])
  | .setState x :: rest =>
    let written := x.eval input state?
    let (last?, outcome) := perform input (some written) rest
    (some (last?.getD written), outcome)
  | .fail message :: _ => (none, .error (.other message))
  | .emit x :: rest => request (.emit (x.eval input state?)) (perform input state? rest)
  | .emitAfter delay x :: rest =>
    request (.emitAfter delay (x.eval input state?)) (perform input state? rest)
  | .render x :: rest => request (.render (x.eval input state?)) (perform input state? rest)
where
  /-- Requests an effect before those of the rest of the run. -/
  request (e : Effect) (rest : Option Value × Except LeafError (List Effect)) :=
    (rest.1, (e :: ·) <$> rest.2)

instance : Process Script where
  run script input state? :=
    let (written?, outcome) := Action.perform input state? script.actions
    { next := script, written?, announced := [], outcome }

/-! ## Conditions -/

/-- A scripted condition. -/
inductive Test where
  | always (b : Bool)
  /-- Holds of inputs equal to the value. -/
  | equals (v : Value)
  /-- Answers with the state, which has to be a truth value. -/
  | state
  | fail (message : String)
  deriving Repr, BEq

/-- Whether the test holds of an input. -/
def Test.holds (input : Value) (state? : Option Value) : Test → Except LeafError Bool
  | .always b => .ok b
  | .equals v => .ok (input == v)
  | .state =>
    match state? with
    | some (.bool b) => .ok b
    | some _ => .error (.other "state is not a bool")
    | none => .error (.other "no state")
  | .fail message => .error (.other message)

instance : Condition Test where
  test t input state? := t.holds input state?

/-! ## Kinds -/

/-- How a scripted kind makes its leaves. -/
inductive Blueprint where
  | process (script : Script)
  | condition (test : Test)
  /-- Refuses every specification. -/
  | reject (shape : LeafShape) (message : String)
  /-- Makes processes that emit the literal of a property on every input. -/
  | needs (property : String)
  deriving Repr, BEq

/-- The factory of the kind. -/
def Blueprint.factory : Blueprint → Factory Script Test
  | .process script => .process fun _ => .ok script
  | .condition test => .condition fun _ => .ok test
  | .reject .process message => .process fun _ => .error (.other message)
  | .reject .condition message => .condition fun _ => .error (.other message)
  | .needs property => .process fun spec =>
    match spec.literal property with
    | .ok v => .ok ⟨[.emit (.literal v)]⟩
    | .error e => .error (.property e)

end Dataflow
