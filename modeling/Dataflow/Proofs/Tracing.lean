import Dataflow.Graph.Build
import Dataflow.Proofs.Views

/-!
# Tracing

A graph that is traced reports more, and that is all: hiding the hops of a traced graph gives the graph
that is not traced, as it was built and after every history.
-/

namespace Dataflow

variable {π κ : Type}

/-- Everything is within reach. -/
def Reach.everything : Reach := ⟨fun _ => True, fun _ => True, fun _ => True⟩

/-- Nothing leads out of everything. -/
theorem Reach.closed_everything (s : Engine π κ) : everything.Closed s where
  entered _ _ := by
    rename_i node _ _
    cases node.kind <;> simp [Covers, everything]
  relayed _ _ _ _ := trivial
  heard _ _ _ := trivial
  queued _ _ := trivial
  pending _ _ := trivial

/-- With everything within reach, whatever can be put off can be run. -/
theorem Reach.drives_everything : everything.Drives := by
  intro task _
  cases task with
  | deliver channel listeners value => exact fun _ _ => trivial
  | emit slot value => trivial

/-- A tick that succeeds takes steps. -/
theorem Engine.steps_of_tick [Process π] [Condition κ] {s s' : Engine π κ} {count : Nat}
    (h : tick s = .ok count s') : Steps .everything s s' := by
  have hleads := leads_tick Reach.drives_everything (Reach.closed_everything s)
  rw [h] at hleads
  exact hleads.1

namespace View

/-- The view that hides hops. -/
def withoutHops (π κ : Type) : View π π κ κ := ⟨id, id, true⟩

/-- Hiding hops hides nothing of a node. -/
@[simp] theorem withoutHops_node (n : Node π κ) : (withoutHops π κ).node n = n := by
  obtain ⟨kind, input?, state?, outputs⟩ := n
  cases kind <;> rfl

/-- Hiding hops hides nothing of an arena. -/
theorem withoutHops_arena (a : Arena (Node π κ)) : a.map (withoutHops π κ).node = a := by
  obtain ⟨entries, free, live⟩ := a
  have hentry : (fun entry : Entry (Node π κ) =>
      (⟨entry.generation, entry.node?.map (withoutHops π κ).node⟩ : Entry (Node π κ))) = id := by
    funext entry
    have hnode : (withoutHops π κ).node = id := funext withoutHops_node
    rw [hnode, Option.map_id]
    rfl
  simp only [Arena.map, hentry, Array.map_id]

/-- A traced engine that was just wired is, without hops, the one that is not traced. -/
theorem withoutHops_engineOf (config : Config) (wired : Plan.Wired π κ) :
    (withoutHops π κ).engine (Graph.engineOf { config with trace := true } wired) =
      Graph.engineOf { config with trace := false } wired := by
  simp only [engine, Graph.engineOf, Engine.initial, withoutHops_arena]
  rfl

/-- Hiding hops twice is hiding them once. -/
theorem withoutHops_graph_graph (g : Graph π κ) :
    (withoutHops π κ).graph ((withoutHops π κ).graph g) = (withoutHops π κ).graph g := by
  simp only [graph, engine, withoutHops_arena]
  simp [config, log, withoutHops]

variable [Process π] [Condition κ]

/-- Leaves are the same whether hops are hidden or not. -/
theorem faithful_withoutHops : (withoutHops π κ).Faithful .everything fun _ => True where
  closed {s} _ := Reach.closed_everything s
  step _ _ := trivial
  run _ _ _ _ _ := rfl
  test _ _ _ _ _ := rfl

/-- A view sees constants sent out as they are. -/
theorem sees_sendConstant {π' κ' : Type} [Process π'] [Condition κ'] {v : View π π' κ κ'} {r : Reach}
    {Inv : Engine π κ → Prop} (hv : v.Faithful r Inv) {slot : SlotId} {s : Engine π κ} (hs : Inv s)
    (hr : r.delivers (.output slot)) :
    v.Sees (Graph.sendConstant slot) (Graph.sendConstant slot) s := by
  refine .node? ?_
  cases s.arena.get? slot with
  | none => exact sees_pure _
  | some n =>
    obtain ⟨kind, input?, state?, outputs⟩ := n
    cases kind with
    | constant value => exact sees_setOutput hv value hs hr
    | _ => exact sees_pure _

/-- Activating sends out the same constants whether hops are hidden or not. -/
theorem sees_activate (constants : List SlotId) (s : Engine π κ) :
    (withoutHops π κ).Sees (Graph.activate constants) (Graph.activate constants) s := by
  unfold Graph.activate
  induction constants generalizing s with
  | nil => exact sees_pure _
  | cons slot rest ih =>
    exact (sees_sendConstant faithful_withoutHops trivial trivial).bind fun _ s' _ => ih s'

end View

namespace Graph

variable [Process π] [Condition κ]

open View

/-- A log without its hops. -/
abbrev logWithoutHops (log : Array Event) : Array Event := log.filter fun event => !event.isHop

/-- What a traced build comes to, seen without hops. -/
def resultWithoutHops : Except BuildStop (Graph π κ) → Except BuildStop (Graph π κ)
  | .ok g => .ok ((withoutHops π κ).graph g)
  | .error (.failed ⟨error, log⟩) => .error (.failed ⟨error, logWithoutHops log⟩)
  | .error (.stopped stop) => .error (.stopped stop)

/-- A build that is not traced is one that is, without hops. -/
theorem build_withoutHops (registry : Registry π κ) (config : Config) (spec : SpecNode) :
    build registry { config with trace := false } spec =
      resultWithoutHops (build registry { config with trace := true } spec) := by
  unfold build
  cases assemble registry spec with
  | error e => rfl
  | ok assembled =>
    obtain ⟨root, scope, wired⟩ := assembled
    have hsees := sees_activate wired.constants (engineOf { config with trace := true } wired)
    rw [Sees, withoutHops_engineOf] at hsees
    dsimp only
    rw [hsees]
    cases activate wired.constants (engineOf { config with trace := true } wired) with
    | ok _ s => rfl
    | error stop s => cases stop <;> rfl

/-- A history that is not traced is one that is, without hops. -/
theorem operateAll_withoutHops (g : Graph π κ) (ops : List Operation) :
    ((withoutHops π κ).graph g).operateAll ops =
      ((g.operateAll ops).1, (withoutHops π κ).graph (g.operateAll ops).2) :=
  operateAll_graph faithful_withoutHops Reach.drives_everything (fun _ _ => trivial) trivial trivial
    ops

end Graph

end Dataflow
