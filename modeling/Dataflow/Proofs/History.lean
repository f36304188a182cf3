import Dataflow.Graph.Basic
import Dataflow.Proofs.Conduct

/-!
# Histories of a graph

A graph is used by one operation after the other, and an operation that fails does not keep the next
one from being done. `operateAll` runs a history, and `operateAll_invariant` reduces what holds in all
reachable states, and of all answers, to single operations. Freeing the graph is not among them: it
ends its history.

`operate_moves` says what an operation can do: it takes steps within reach, or it adds a sink to the
output of a node, or it empties a log.
-/

namespace Dataflow

/-- A use of a graph. -/
inductive Operation where
  | push (value : Value)
  | tick
  | runUntilIdle
  | advanceBy (span : Nat)
  | settle
  | tap (slot : SlotId)
  | takeOutputs
  | takeRendered
  deriving Repr

/-- What an operation answers. -/
inductive Answer where
  | done
  | ticks (number : Nat)
  | tapped (found : Bool)
  | taken (values : Array Value)
  deriving Repr, BEq

namespace Graph

variable {π κ : Type} [Process π] [Condition κ]

/-- The act of an operation. -/
def act (g : Graph π κ) : Operation → Act π κ Answer
  | .push value => do
    g.push value
    return .done
  | .tick => return .ticks (← Engine.tick)
  | .runUntilIdle => return .ticks (← Engine.runUntilIdle)
  | .advanceBy span => do
    Engine.advanceBy span
    return .done
  | .settle => do
    Engine.settle
    return .done
  | .tap slot => return .tapped (← tap slot)
  | .takeOutputs => return .taken (← Engine.takeOutputs)
  | .takeRendered => return .taken (← Engine.takeRendered)

/-- Does an operation. -/
def operate (g : Graph π κ) (op : Operation) : Except Stop Answer × Graph π κ :=
  g.perform (g.act op)

/-- Does operations, one after the other. -/
def operateAll (g : Graph π κ) : List Operation → List (Except Stop Answer) × Graph π κ
  | [] => ([], g)
  | op :: ops =>
    let (answer, g) := g.operate op
    let (answers, g) := g.operateAll ops
    (answer :: answers, g)

/-! ## What an operation can do -/

/-- What an operation can do with the engine. -/
inductive Move (r : Reach) (s : Engine π κ) : Operation → Engine π κ → Prop
  | steps {op : Operation} {s' : Engine π κ} (h : Engine.Steps r s s') : Move r s op s'
  | tapped {slot : SlotId} {node : Node π κ} (hget : s.arena.get? slot = some node) :
    Move r s (.tap slot) { s with
      arena := s.arena.set slot { node with outputs := node.outputs ++ [.sink] } }
  | tookOutputs : Move r s .takeOutputs { s with outputs := #[] }
  | tookRendered : Move r s .takeRendered { s with rendered := #[] }

omit [Process π] [Condition κ] in
/-- What becomes of nodes when one of them is tapped. -/
theorem get?_tapped {a : Arena (Node π κ)} {slot other : SlotId} {node new : Node π κ}
    (hget : a.get? slot = some node)
    (hnew : (a.set slot { node with outputs := node.outputs ++ [.sink] }).get? other = some new) :
    ∃ old, a.get? other = some old ∧ new.kind = old.kind ∧ new.state? = old.state? ∧
      ∀ listener ∈ new.outputs, listener ∈ old.outputs ∨ listener = .sink := by
  by_cases ho : other = slot
  · subst ho
    rw [Arena.get?_set_self hget] at hnew
    cases hnew
    exact ⟨node, hget, rfl, rfl, by simp⟩
  · rw [Arena.get?_set_of_ne ho] at hnew
    exact ⟨new, hnew, rfl, rfl, fun listener hl => .inl hl⟩

omit [Condition κ] in
/-- A graph that is tapped has nothing new within reach but the output log. -/
theorem Move.closed {r : Reach} {s s' : Engine π κ} {op : Operation} (h : Move r s op s') (hs : r.Closed s)
    (hsink : r.delivers .sink) : r.Closed s' := by
  cases h with
  | steps h => exact hs.of_steps h
  | @tapped slot node hget =>
    refine ⟨fun hreach hnew => ?_, fun hreach hnew listener hl => ?_, hs.heard, hs.queued,
      hs.pending⟩
    · obtain ⟨old, hold, hkind, -⟩ := get?_tapped hget hnew
      rw [hkind]
      exact hs.entered hreach hold
    · obtain ⟨old, hold, -, -, houtputs⟩ := get?_tapped hget hnew
      rcases houtputs listener hl with hl | rfl
      · exact hs.relayed hreach hold listener hl
      · exact hsink
  | _ => exact ⟨hs.entered, hs.relayed, hs.heard, hs.queued, hs.pending⟩

/-- What an operation may come to. -/
structure Moves (r : Reach) (s : Engine π κ) (op : Operation) (answer : Except Stop Answer)
    (s' : Engine π κ) : Prop where
  move : Move r s op s'
  active : s'.active = s.active
  halts : ∀ stop, answer = .error stop → Engine.Halts r s stop

variable {r : Reach} {g : Graph π κ}

/-- What an act can do is what the operation of it can do. -/
theorem perform_moves {op : Operation} {α : Type} {act : Act π κ α} {f : α → Answer}
    (h : Engine.Leads r g.engine (act g.engine)) :
    Moves r g.engine op (g.perform (do return f (← act))).1 (g.perform (do return f (← act))).2.engine := by
  have h : Engine.Leads r g.engine ((do return f (← act) : Act π κ Answer) g.engine) :=
    h.bind fun _ _ _ _ => Engine.leads_pure _
  unfold perform
  cases hact : (do return f (← act) : Act π κ Answer) g.engine with
  | ok answer s =>
    rw [hact] at h
    exact ⟨.steps h.1, h.2, by simp⟩
  | error stop s =>
    rw [hact] at h
    refine ⟨.steps h.1, h.2.1, ?_⟩
    rintro _ ⟨⟩
    exact h.2.2

omit [Process π] [Condition κ] in
/-- To add a listener is to write the node back with one more, if there is a node. -/
theorem addListener_eq (slot : SlotId) (listener : Listener) (s : Engine π κ) :
    Engine.addListener slot listener s =
      match s.arena.get? slot with
      | some node => .ok true { s with
          arena := s.arena.set slot { node with outputs := node.outputs ++ [listener] } }
      | none => .ok false s := by
  unfold Engine.addListener
  rw [Engine.node?_bind]
  cases s.arena.get? slot <;> rfl

/-- Tapping adds a sink to a node, if there is one. -/
theorem operate_tap (g : Graph π κ) (slot : SlotId) :
    g.operate (.tap slot) =
      match g.engine.arena.get? slot with
      | some node => (.ok (.tapped true), { g with engine := { g.engine with
          arena := g.engine.arena.set slot { node with outputs := node.outputs ++ [.sink] } } })
      | none => (.ok (.tapped false), g) := by
  have hact : ∀ {found s}, Engine.addListener slot .sink g.engine = .ok found s →
      g.act (.tap slot) g.engine = .ok (.tapped found) s := fun h =>
    Engine.bind_of_ok (f := fun found => pure (Answer.tapped found)) h
  have hadd := addListener_eq slot .sink g.engine
  rw [operate, perform]
  cases hget : g.engine.arena.get? slot with
  | none =>
    rw [hget] at hadd
    rw [hact hadd]
  | some node =>
    rw [hget] at hadd
    rw [hact hadd]

/-- What each operation can do. -/
theorem operate_moves (hdrives : r.Drives) (hs : r.Closed g.engine)
    (hroot : r.delivers (.input g.root)) (op : Operation) :
    Moves r g.engine op (g.operate op).1 (g.operate op).2.engine := by
  cases op with
  | push value =>
    exact perform_moves (f := fun _ => .done) (Engine.enters_setInput g.root value _ hs hroot)
  | tick => exact perform_moves (Engine.leads_tick hdrives hs)
  | runUntilIdle => exact perform_moves (Engine.leads_runUntilIdle hdrives hs)
  | advanceBy span =>
    exact perform_moves (f := fun _ => .done) (Engine.leads_advanceBy hdrives span hs)
  | settle => exact perform_moves (f := fun _ => .done) (Engine.leads_settle hdrives hs)
  | tap slot =>
    rw [operate_tap]
    cases hget : g.engine.arena.get? slot with
    | none => exact ⟨.steps .refl, rfl, fun stop h => by cases h⟩
    | some node => exact ⟨.tapped hget, rfl, fun stop h => by cases h⟩
  | takeOutputs => exact ⟨.tookOutputs, rfl, fun stop h => by cases h⟩
  | takeRendered => exact ⟨.tookRendered, rfl, fun stop h => by cases h⟩

/-! ## Whole histories -/

/-- An operation leaves the root where it is. -/
theorem operate_root (g : Graph π κ) (op : Operation) : (g.operate op).2.root = g.root := by
  unfold operate perform
  split <;> rfl

/-- What every operation keeps holds of every reachable state, and what then holds of every answer
holds of all answers. -/
theorem operateAll_invariant {P : Engine π κ → Prop} {Q : Except Stop Answer → Prop}
    (ops : List Operation) (hstep : ∀ g' : Graph π κ, g'.root = g.root → P g'.engine → ∀ op ∈ ops,
      P (g'.operate op).2.engine ∧ Q (g'.operate op).1) (h : P g.engine) :
    P (g.operateAll ops).2.engine ∧ ∀ answer ∈ (g.operateAll ops).1, Q answer := by
  suffices ∀ g' : Graph π κ, g'.root = g.root → P g'.engine →
      P (g'.operateAll ops).2.engine ∧ ∀ answer ∈ (g'.operateAll ops).1, Q answer from this g rfl h
  induction ops with
  | nil => exact fun g' _ h => ⟨h, List.forall_mem_nil _⟩
  | cons op ops ih =>
    intro g' hroot h
    obtain ⟨hP, hQ⟩ := hstep g' hroot h op (List.mem_cons_self ..)
    obtain ⟨hP', hQ'⟩ := ih (fun g' hroot h op hop => hstep g' hroot h op (List.mem_cons_of_mem _ hop))
      (g'.operate op).2 ((operate_root g' op).trans hroot) hP
    exact ⟨hP', List.forall_mem_cons.2 ⟨hQ, hQ'⟩⟩

/-- A history leaves the root where it is. -/
theorem operateAll_root (g : Graph π κ) (ops : List Operation) :
    (g.operateAll ops).2.root = g.root := by
  induction ops generalizing g with
  | nil => rfl
  | cons op ops ih => exact (ih _).trans (operate_root g op)

end Graph

end Dataflow
