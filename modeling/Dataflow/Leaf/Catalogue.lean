import Dataflow.Leaf.Registry

/-!
# The catalogue

The leaves that every program has at hand: seven processes and a condition. A leaf that needs a
state refuses to run before its state is set, and a leaf that computes refuses what is not a number.
An input is judged before a state, save by the condition, which asks for its state first.
-/

namespace Dataflow

/-! ## What leaves need -/

/-- The number that a leaf needs in a role. -/
def requireNumber (leaf role : String) : Value → Except LeafError Float
  | .number x => .ok x
  | v => .error (.notANumber leaf role v.typeName)

/-- The state that a leaf needs. -/
def requireState (leaf : String) : Option Value → Except LeafError Value
  | some v => .ok v
  | none => .error (.missingState leaf)

/-! ## Processes -/

/-- A process of the catalogue. -/
inductive CatalogueProcess where
  /-- Emits the sum of input and state. -/
  | add
  /-- Emits its input after as many milliseconds as its state says. -/
  | delay
  /-- Emits its input. -/
  | get
  /-- Emits its state. -/
  | pass
  /-- Announces and renders its input. -/
  | render
  /-- Emits its state. -/
  | set
  /-- Makes its input its state, and emits it on a later tick. -/
  | store
  deriving Repr, DecidableEq

namespace CatalogueProcess

/-- The kind under which the process is registered. -/
def kind : CatalogueProcess → String
  | .add => "add"
  | .delay => "delay"
  | .get => "get"
  | .pass => "pass"
  | .render => "render"
  | .set => "set"
  | .store => "store"

/-- Every process, in the order of kinds. -/
def all : List CatalogueProcess := [.add, .delay, .get, .pass, .render, .set, .store]

/-- What the process wants done on an input. -/
def effects (p : CatalogueProcess) (input : Value) (state? : Option Value) :
    Except LeafError (List Effect) := do
  match p with
  | .add =>
    let a ← requireNumber p.kind "input" input
    let b ← requireNumber p.kind "state" (← requireState p.kind state?)
    return [.emit (.number (a + b))]
  | .delay =>
    let milliseconds ← requireNumber p.kind "state" (← requireState p.kind state?)
    match Duration.ofSeconds? (milliseconds / 1000) with
    | some span => return [.emitAfter span input]
    | none => throw (.invalidDelay milliseconds)
  | .get => return [.emit input]
  | .pass | .set => return [.emit (← requireState p.kind state?)]
  | .render => return [.render input]
  | .store => return [.emitAfter 0 input]

instance : Process CatalogueProcess where
  run p input state? :=
    { next := p
      written? := if p = .store then some input else none
      announced := if p = .render then [input.rendered] else []
      outcome := p.effects input state? }

end CatalogueProcess

/-! ## Conditions -/

/-- A condition of the catalogue. -/
inductive CatalogueCondition where
  /-- Holds when the input is below the state. -/
  | under
  deriving Repr, DecidableEq

namespace CatalogueCondition

/-- The kind under which the condition is registered. -/
def kind : CatalogueCondition → String
  | .under => "under"

/-- Every condition, in the order of kinds. -/
def all : List CatalogueCondition := [.under]

/-- Whether the condition holds of an input. -/
def holds (c : CatalogueCondition) (input : Value) (state? : Option Value) :
    Except LeafError Bool := do
  match c with
  | .under =>
    let state ← requireState c.kind state?
    let a ← requireNumber c.kind "input" input
    let b ← requireNumber c.kind "state" state
    return a < b

instance : Condition CatalogueCondition := ⟨holds⟩

end CatalogueCondition

/-! ## Registration -/

namespace Registry

/-- The kinds of the catalogue with their factories, which accept every specification. -/
def catalogueFactories : List (String × Factory CatalogueProcess CatalogueCondition) :=
  CatalogueProcess.all.map (fun p => (p.kind, .process fun _ => .ok p)) ++
    CatalogueCondition.all.map fun c => (c.kind, .condition fun _ => .ok c)

/-- The registry that holds the catalogue and nothing else. -/
def catalogue : Registry CatalogueProcess CatalogueCondition where
  factories := catalogueFactories
  proper := by
    simp [catalogueFactories, CatalogueProcess.all, CatalogueCondition.all]
    decide

/-- Registers the catalogue, its leaves seen as leaves of the registry's types. Kinds that are
already there are replaced. -/
def registerCatalogue {π κ : Type} (ofProcess : CatalogueProcess → π)
    (ofCondition : CatalogueCondition → κ) (r : Registry π κ) :
    Except RegistryError (Registry π κ) :=
  catalogueFactories.foldlM
    (fun r entry => r.register entry.1 (entry.2.map ofProcess ofCondition)) r

/-- Registering the catalogue into an empty registry gives the catalogue. -/
theorem registerCatalogue_empty :
    (empty.registerCatalogue id id : Except RegistryError (Registry _ _)) = .ok catalogue := by
  rfl

end Registry

end Dataflow
