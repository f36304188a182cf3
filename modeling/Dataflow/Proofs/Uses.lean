import Dataflow.Proofs.Endings
import Dataflow.Proofs.Guards

/-!
# Histories in which a graph is freed

A graph can be freed at any time and used on. What a history of uses keeps is reduced to what operations
keep and what freeing keeps (`useAll_invariant`). In particular a graph is in good order whatever was done
with it, whether it failed or not: its arena is well-formed, and no input is being processed.
-/

namespace Dataflow

namespace Engine

variable {π κ : Type}

/-- The engine without its nodes, channels, tasks and timers, as it is after a teardown. -/
def freed (s : Engine π κ) : Engine π κ :=
  { s with
    arena := s.arena.slots.foldl Arena.release s.arena
    channels := .empty
    queue := #[]
    clock := s.clock.clear }

end Engine

/-- Releasing identifiers keeps an arena well-formed. -/
theorem Arena.WellFormed.foldl_release {ν : Type} {a : Arena ν} (h : a.WellFormed)
    (slots : List SlotId) : (slots.foldl Arena.release a).WellFormed := by
  induction slots generalizing a with
  | nil => exact h
  | cons slot slots ih => exact ih (h.release slot)

namespace Graph

variable {π κ : Type} [Process π] [Condition κ] {g : Graph π κ}

/-- Using a graph by an operation is to operate it. -/
theorem use_operation (g : Graph π κ) (op : Operation) :
    g.use (.operation op) = ((g.operate op).1.map .inl, (g.operate op).2) := by
  have hact : g.useAct (.operation op) = (do return .inl (← g.act op) : Act π κ UseAnswer) := rfl
  unfold use operate perform
  rw [hact]
  cases h : g.act op g.engine with
  | ok answer s =>
    rw [Engine.bind_of_ok h]
    rfl
  | error stop s =>
    rw [Engine.bind_of_error h]
    rfl

/-- A teardown tells how many nodes there are, and frees them. -/
theorem use_teardown (g : Graph π κ) :
    g.use .teardown =
      (.ok (.inr g.engine.arena.slots.length), { g with engine := g.engine.freed }) := rfl

/-- The first use comes before the rest, which find the graph it leaves. -/
theorem useAll_cons (g : Graph π κ) (u : Use) (us : List Use) :
    g.useAll (u :: us) = ((g.use u).1 :: ((g.use u).2.useAll us).1, ((g.use u).2.useAll us).2) := rfl

/-- What operations keep, and freeing keeps, holds of every state that a history leads to. -/
theorem useAll_invariant {P : Graph π κ → Prop} (hoperate : ∀ g op, P g → P (g.operate op).2)
    (hfree : ∀ g, P g → P { g with engine := g.engine.freed }) (us : List Use) (h : P g) :
    P (g.useAll us).2 := by
  induction us generalizing g with
  | nil => exact h
  | cons u us ih =>
    rw [useAll_cons]
    refine ih ?_
    cases u with
    | operation op =>
      rw [use_operation]
      exact hoperate g op h
    | teardown => exact hfree g h

/-- What holds of a graph between its uses. -/
structure InOrder (config : Config) (g : Graph π κ) : Prop where
  config : g.engine.config = config
  arena : g.engine.arena.WellFormed
  active : g.engine.active = []

omit [Process π] [Condition κ] in
/-- Whether an act succeeds or not, the graph goes on with the engine that it leaves. -/
theorem perform_engine {α : Type} (g : Graph π κ) (act : Act π κ α) :
    (g.perform act).2.engine = Engine.leftBy (act g.engine) := by
  unfold perform
  cases act g.engine <;> rfl

/-- Operations keep a graph in order, those that fail too. -/
theorem InOrder.operate {config : Config} (h : g.InOrder config) (op : Operation) :
    (g.operate op).2.InOrder config := by
  have hmoves : Moves .everything g.engine op (g.operate op).1 (g.operate op).2.engine :=
    operate_moves Reach.drives_everything (Reach.closed_everything _) trivial op
  refine ⟨?_, hmoves.move.wellFormed h.arena, hmoves.active.trans h.active⟩
  rw [Graph.operate, perform_engine, (guarded_act g op).config]
  exact h.config

omit [Process π] [Condition κ] in
/-- Freeing a graph keeps it in order. -/
theorem InOrder.freed {config : Config} (h : g.InOrder config) :
    ({ g with engine := g.engine.freed } : Graph π κ).InOrder config :=
  ⟨h.config, h.arena.foldl_release _, h.active⟩

/-- A graph is in order after any history. -/
theorem InOrder.useAll {config : Config} (h : g.InOrder config) (us : List Use) :
    (g.useAll us).2.InOrder config :=
  useAll_invariant (fun _ op h => h.operate op) (fun _ h => h.freed) us h

variable {registry : Registry π κ} {config : Config} {spec : SpecNode}

/-- A graph that was built is in order. -/
theorem inOrder_of_build (hbuild : build registry config spec = .ok g) : g.InOrder config := by
  obtain ⟨wired, hassemble, hactivate⟩ := build_eq_ok_iff.1 hbuild
  have hleads : Engine.Leads .everything (engineOf config wired)
      (activate wired.constants (engineOf config wired)) :=
    Engine.leads_forM (Reach.closed_everything _) fun _ _ s hs => Engine.leads_constant hs trivial
  rw [hactivate] at hleads
  exact ⟨hleads.1.sameWiring.config, wellFormed_operateAll hbuild [], hleads.2⟩

end Graph

end Dataflow
