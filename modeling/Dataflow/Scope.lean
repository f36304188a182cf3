import Dataflow.Keyed
import Dataflow.Listener

/-!
# Scopes

A scope gives each broadcast key its channel. A key is declared once in a scope, and keys are kept
in their order.
-/

namespace Dataflow

/-- Misuse of the keys of a scope. -/
inductive ScopeError where
  | duplicateKey (key : String)
  | unknownKey (key : String)
  deriving Repr, DecidableEq

/-- The misuse in words. -/
def ScopeError.message : ScopeError → String
  | .duplicateKey key => s!"broadcast key `{key}` is already registered in this scope"
  | .unknownKey key => s!"broadcast key `{key}` is not registered in this scope"

/-- The channels of a scope by key, in the order of keys. -/
structure Scope where
  entries : List (String × ChannelId)
  deriving Repr, DecidableEq, Inhabited

namespace Scope

/-- The scope without keys. -/
def empty : Scope := ⟨[]⟩

/-- The channel of a key, if the key is declared. -/
def find? (s : Scope) (key : String) : Option ChannelId := s.entries.lookup key

/-- Declares a key for a channel. -/
def register (s : Scope) (key : String) (channel : ChannelId) : Except ScopeError Scope :=
  if (s.find? key).isSome then .error (.duplicateKey key)
  else .ok ⟨Keyed.insert key channel s.entries⟩

/-- The channel of a key that has to be declared. -/
def lookup (s : Scope) (key : String) : Except ScopeError ChannelId :=
  match s.find? key with
  | some channel => .ok channel
  | none => .error (.unknownKey key)

/-- The declared keys in their order. -/
def keys (s : Scope) : List String := s.entries.map Prod.fst

/-- The number of keys. -/
def size (s : Scope) : Nat := s.entries.length

/-- A key can be declared exactly once, and declaring it changes nothing for other keys. -/
theorem register_eq_ok_iff {s s' : Scope} {key : String} {channel : ChannelId} :
    s.register key channel = .ok s' ↔
      s.find? key = none ∧ s' = ⟨Keyed.insert key channel s.entries⟩ := by
  unfold register
  cases s.find? key <;> simp [eq_comm]

/-- A key that was registered is found with its channel, and the others as before. -/
theorem find?_of_register {s s' : Scope} {key : String} {channel : ChannelId}
    (h : s.register key channel = .ok s') (other : String) :
    s'.find? other = if other = key then some channel else s.find? other := by
  obtain ⟨-, rfl⟩ := register_eq_ok_iff.1 h
  split
  · rename_i hk
    rw [hk]
    exact Keyed.lookup_insert_self key channel s.entries
  · exact Keyed.lookup_insert_of_ne ‹_› channel s.entries

end Scope

end Dataflow
