import Dataflow.Proofs.History

/-!
# Requests and scripts

What a graph can be asked for without being freed is an operation or a query, which only reads. A script
tells of such requests in their order, and of which of them are somebody's own and which were put in to
watch the graph: taps, called probes then, and queries. `Graph.follow` serves all of them and tells what its
own requests were answered.
-/

namespace Dataflow

/-- A question about a graph. -/
inductive Query where
  | outputs
  | rendered
  | now
  | timeToNextTimer
  | hasPendingWork
  | pendingTasks
  | nodeCount
  | find (kind : String)
  | inputOf (slot : SlotId)
  | stateOf (slot : SlotId)
  | listenersOf (slot : SlotId)
  | summary
  deriving Repr

/-- What is read from a graph. -/
inductive Reading where
  | values (values : Array Value)
  | time (now : Nat)
  | wait (time? : Option Nat)
  | flag (holds : Bool)
  | number (n : Nat)
  | slots (slots : List SlotId)
  | cell (value? : Option Value)
  | listeners (listeners? : Option (List Listener))
  | summary (summary : Summary)
  deriving Repr

/-- What a graph is asked for. -/
inductive Request where
  | operation (op : Operation)
  | query (q : Query)
  deriving Repr

/-- What a graph answers to a request. -/
inductive Response where
  | answer (answer : Except Stop Answer)
  | reading (reading : Reading)

/-- A request and its response. -/
abbrev Exchange := Request × Response

/-- Whether a request is about what probes have a part in: the output log and the listeners of nodes. -/
def Request.seesProbes : Request → Bool
  | .operation .takeOutputs | .query .outputs | .query (.listenersOf _) => true
  | _ => false

/-- The values that were taken out of the output log. -/
def Exchange.taken : Exchange → List Value
  | (.operation .takeOutputs, .answer (.ok (.taken values))) => values.toList
  | _ => []

/-- Only taking the output log takes values out of it. -/
theorem Exchange.taken_operation {op : Operation} (hop : op ≠ .takeOutputs)
    (answer : Except Stop Answer) : Exchange.taken (.operation op, .answer answer) = [] := by
  cases op with
  | takeOutputs => exact absurd rfl hop
  | _ => rfl

/-- A cue of a script: a request of one's own, or one that was put in. -/
inductive Cue where
  | own (request : Request)
  /-- A tap that was put in. -/
  | probe (slot : SlotId)
  /-- A query that was put in. -/
  | glance (q : Query)
  deriving Repr

namespace Cue

/-- Whether a request is one's own. -/
def isOwn : Cue → Bool
  | .own _ => true
  | _ => false

/-- The request of a cue. -/
def request : Cue → Request
  | .own request => request
  | .probe slot => .operation (.tap slot)
  | .glance q => .query q

end Cue

namespace Graph

variable {π κ : Type}

/-- Answers a query. -/
def consult (g : Graph π κ) : Query → Reading
  | .outputs => .values g.engine.outputs
  | .rendered => .values g.engine.rendered
  | .now => .time g.now
  | .timeToNextTimer => .wait g.timeToNextTimer?
  | .hasPendingWork => .flag g.engine.isPending
  | .pendingTasks => .number g.engine.queue.size
  | .nodeCount => .number g.nodeCount
  | .find kind => .slots (g.find kind)
  | .inputOf slot => .cell (g.inputOf? slot)
  | .stateOf slot => .cell (g.stateOf? slot)
  | .listenersOf slot => .listeners ((g.engine.arena.get? slot).map Node.outputs)
  | .summary => .summary g.summary

variable [Process π] [Condition κ]

/-- Serves a request. -/
def serve (g : Graph π κ) : Request → Response × Graph π κ
  | .operation op => (.answer (g.operate op).1, (g.operate op).2)
  | .query q => (.reading (g.consult q), g)

/-- Serves the requests of a script. Returns the exchanges that are one's own. -/
def follow (g : Graph π κ) : List Cue → List Exchange × Graph π κ
  | [] => ([], g)
  | cue :: rest =>
    let (response, g) := g.serve cue.request
    let (exchanges, g) := g.follow rest
    (if cue.isOwn then (cue.request, response) :: exchanges else exchanges, g)

/-- A script is followed to a cue, and then the cue is served. -/
theorem follow_concat (g : Graph π κ) (script : List Cue) (cue : Cue) :
    g.follow (script ++ [cue]) =
      ((g.follow script).1 ++
          if cue.isOwn then [(cue.request, ((g.follow script).2.serve cue.request).1)] else [],
        ((g.follow script).2.serve cue.request).2) := by
  induction script generalizing g with
  | nil => rfl
  | cons first rest ih =>
    have hcons : ∀ script, g.follow (first :: script) =
        (if first.isOwn then (first.request, (g.serve first.request).1) ::
            ((g.serve first.request).2.follow script).1
          else ((g.serve first.request).2.follow script).1,
          ((g.serve first.request).2.follow script).2) := fun _ => rfl
    rw [List.cons_append, hcons, hcons, ih]
    cases first.isOwn <;> rfl

/-- Whatever is requested, the root stays where it is. -/
theorem serve_root (g : Graph π κ) (request : Request) : (g.serve request).2.root = g.root := by
  cases request with
  | operation op => exact operate_root g op
  | query q => rfl

/-- Whatever is requested, the scope stays as it was built. -/
theorem serve_scope (g : Graph π κ) (request : Request) : (g.serve request).2.scope = g.scope := by
  cases request with
  | operation op =>
    show (g.perform (g.act op)).2.scope = g.scope
    unfold perform
    split <;> rfl
  | query q => rfl

/-- The root and the keys stay what they are. -/
theorem follow_root_scope (g : Graph π κ) (script : List Cue) :
    (g.follow script).2.root = g.root ∧ (g.follow script).2.scope = g.scope := by
  induction script generalizing g with
  | nil => exact ⟨rfl, rfl⟩
  | cons cue rest ih =>
    obtain ⟨hroot, hscope⟩ := ih (g.serve cue.request).2
    exact ⟨hroot.trans (serve_root g _), hscope.trans (serve_scope g _)⟩

end Graph

end Dataflow
