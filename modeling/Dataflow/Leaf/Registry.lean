import Dataflow.Leaf.Basic
import Dataflow.Text.Inspect

/-!
# The registry

The registry gives each leaf kind the way to make its leaves. The last registration of a kind
counts, and structural kinds cannot be registered.
-/

namespace Dataflow

/-- Which of the two contracts a leaf keeps. -/
inductive LeafShape where
  | process
  | condition
  deriving Repr, DecidableEq

/-- The shape's name. -/
def LeafShape.name : LeafShape → String
  | .process => "process"
  | .condition => "condition"

/-- A leaf of either shape. -/
inductive Leaf (π κ : Type) where
  | process (leaf : π)
  | condition (leaf : κ)

/-- Makes the leaves of a kind from their specifications. -/
inductive Factory (π κ : Type) where
  | process (make : SpecNode → Except LeafError π)
  | condition (make : SpecNode → Except LeafError κ)

/-- The shape of the leaves a factory makes. -/
def Factory.shape {π κ : Type} : Factory π κ → LeafShape
  | .process _ => .process
  | .condition _ => .condition

/-- Makes a leaf. -/
def Factory.make {π κ : Type} (spec : SpecNode) : Factory π κ → Except LeafError (Leaf π κ)
  | .process make => Leaf.process <$> make spec
  | .condition make => Leaf.condition <$> make spec

/-- The factory with its leaves seen as leaves of other types. -/
def Factory.map {π π' κ κ' : Type} (f : π → π') (g : κ → κ') : Factory π κ → Factory π' κ'
  | .process make => .process fun spec => f <$> make spec
  | .condition make => .condition fun spec => g <$> make spec

/-- Misuse of the registry. -/
inductive RegistryError where
  | reservedKind (kind : String)
  deriving Repr, DecidableEq

/-- The misuse in words. -/
def RegistryError.message : RegistryError → String
  | .reservedKind kind => s!"`{kind}` is a structural kind and cannot be registered as a leaf"

/-- The factories by kind, in the order of kinds. No structural kind is among them. -/
structure Registry (π κ : Type) where
  factories : List (String × Factory π κ)
  proper : ∀ entry ∈ factories, isStructural entry.1 = false

namespace Registry

open Text.Inspect

variable {π κ : Type}

/-- The registry without kinds. -/
def empty : Registry π κ := ⟨[], by simp⟩

instance : Inhabited (Registry π κ) := ⟨empty⟩

/-- The registry with one more kind, which is not structural. -/
def extend (r : Registry π κ) (kind : String) (factory : Factory π κ)
    (h : isStructural kind = false) : Registry π κ where
  factories := Keyed.insert kind factory r.factories
  proper entry hentry := by
    rcases Keyed.mem_of_mem_insert hentry with rfl | hentry
    · exact h
    · exact r.proper entry hentry

/-- Registers a kind, replacing an earlier registration. -/
def register (r : Registry π κ) (kind : String) (factory : Factory π κ) :
    Except RegistryError (Registry π κ) :=
  if h : isStructural kind = false then .ok (r.extend kind factory h)
  else .error (.reservedKind kind)

/-- The factory of a kind. -/
def find? (r : Registry π κ) (kind : String) : Option (Factory π κ) := r.factories.lookup kind

/-- Whether a kind is registered. -/
def contains (r : Registry π κ) (kind : String) : Bool := (r.find? kind).isSome

/-- The shape of a kind's leaves, if the kind is registered. -/
def shape? (r : Registry π κ) (kind : String) : Option LeafShape :=
  (r.find? kind).map Factory.shape

/-- The registered kinds in order. -/
def kinds (r : Registry π κ) : List String := r.factories.map Prod.fst

/-- Every kind but the structural ones can be registered, and doing so changes nothing for other
kinds. -/
theorem register_eq_ok_iff {r r' : Registry π κ} {kind : String} {factory : Factory π κ} :
    r.register kind factory = .ok r' ↔ ∃ h, r' = r.extend kind factory h := by
  unfold register
  split
  · rename_i hk
    simp [hk, eq_comm]
  · rename_i hk
    simp [hk]

/-- A kind that was registered is found with its factory, and the others as before. -/
theorem find?_of_register {r r' : Registry π κ} {kind : String} {factory : Factory π κ}
    (h : r.register kind factory = .ok r') (other : String) :
    r'.find? other = if other = kind then some factory else r.find? other := by
  obtain ⟨-, rfl⟩ := register_eq_ok_iff.1 h
  split
  · rename_i hk
    rw [hk]
    exact Keyed.lookup_insert_self kind factory r.factories
  · exact Keyed.lookup_insert_of_ne ‹_› factory r.factories

/-- A structural kind is not registered. -/
theorem find?_eq_none_of_isStructural (r : Registry π κ) {kind : String}
    (h : isStructural kind = true) : r.find? kind = none := by
  rw [find?, List.lookup_eq_none_iff]
  intro entry hentry
  have := r.proper entry hentry
  simp only [bne_iff_ne, ne_eq]
  rintro rfl
  simp_all

/-- The registry for inspection. -/
def inspect (r : Registry π κ) : String :=
  record "Registry" [("kinds", sequence (r.kinds.map Text.quoted))]

end Registry

end Dataflow
