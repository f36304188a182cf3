import Dataflow.Proofs.Uses

/-!
# Tracing only adds lines

A graph that is traced tells of more, and does nothing else: without the lines of hops it reports what it
reports when it is not traced. Lines of hops are known by their target, which no other line begins with, so
they can be told from the lines alone (`lines_logWithoutHops`). The rest is said of graphs as a whole: all
but the configured trace and the hops in the log is the same after the same build and the same uses.
-/

namespace Dataflow

/-! ## Lines -/

/-- What the lines of hops begin with. -/
def hopTarget : String := "treevm::trace "

/-- Whether the line is of a hop. -/
def isHopLine (line : String) : Bool := hopTarget.toList.isPrefixOf line.toList

/-- The characters of the target of hops. -/
theorem toList_hopTarget :
    hopTarget.toList = ['t', 'r', 'e', 'e', 'v', 'm', ':', ':', 't', 'r', 'a', 'c', 'e', ' '] :=
  String.toList_ofList

/-- Hops are reported in lines that begin with their target, and nothing else is. -/
theorem isHopLine_line (event : Event) : isHopLine event.line = event.isHop := by
  cases event with
  | hop h =>
    have hline : (Event.hop h).line = hopTarget ++ h.line := rfl
    rw [hline, isHopLine, String.toList_append, List.isPrefixOf_iff_prefix.2 (List.prefix_append ..)]
    rfl
  | announced text =>
    have hline : (Event.announced text).line =
      "treevm::render render" ++ Event.fields [("value", text)] := rfl
    -- The target of announcements begins as that of hops does.
    have hhead : "treevm::render render".toList = ['t', 'r', 'e', 'e', 'v', 'm', ':', ':',
      'r', 'e', 'n', 'd', 'e', 'r', ' ', 'r', 'e', 'n', 'd', 'e', 'r'] := String.toList_ofList
    rw [hline, isHopLine, String.toList_append, toList_hopTarget, hhead]
    rfl
  | warning w =>
    have hline : (Event.warning w).line = "WARN " ++ w.line := rfl
    have hhead : "WARN ".toList = ['W', 'A', 'R', 'N', ' '] := String.toList_ofList
    rw [hline, isHopLine, String.toList_append, toList_hopTarget, hhead]
    rfl

/-- The lines of a log. -/
def linesOf (log : Array Event) : List String := log.toList.map Event.line

/-- The lines of a log without those of hops. -/
def linesWithoutHops (log : Array Event) : List String :=
  (linesOf log).filter fun line => !isHopLine line

/-- To leave out hops is to leave out their lines, as no other event has such a line. -/
theorem lines_logWithoutHops (log : Array Event) :
    linesOf (Graph.logWithoutHops log) = linesWithoutHops log := by
  have hline : (fun line => !isHopLine line) ∘ Event.line = fun event => !event.isHop := by
    funext event
    exact congrArg not (isHopLine_line event)
  rw [linesOf, linesWithoutHops, linesOf, List.filter_map, hline, Array.toList_filter]

/-! ## Graphs that are not traced -/

namespace Engine

variable {π κ : Type}

/-- The engine as it would be if it had never been traced. -/
def untraced (s : Engine π κ) : Engine π κ :=
  { s with config := { s.config with trace := false }, log := Graph.logWithoutHops s.log }

/-- The view without hops is of the engine that was never traced. -/
theorem withoutHops_engine (s : Engine π κ) : (View.withoutHops π κ).engine s = s.untraced := by
  rw [View.engine, View.withoutHops_arena]
  rfl

end Engine

namespace Graph

variable {π κ : Type} [Process π] [Condition κ] {g : Graph π κ}

/-- The graph as it would be if it had never been traced. -/
def untraced (g : Graph π κ) : Graph π κ := { g with engine := g.engine.untraced }

omit [Process π] [Condition κ] in
/-- The view without hops is of the graph that was never traced. -/
theorem withoutHops_graph (g : Graph π κ) : (View.withoutHops π κ).graph g = g.untraced := by
  rw [View.graph, Engine.withoutHops_engine]
  rfl

/-- A use that is not traced is one that is, without hops. -/
theorem use_untraced (g : Graph π κ) (u : Use) :
    g.untraced.use u = ((g.use u).1, (g.use u).2.untraced) := by
  cases u with
  | operation op =>
    have hoperate := View.operate_graph View.faithful_withoutHops Reach.drives_everything
      (g := g) trivial trivial op
    rw [withoutHops_graph, withoutHops_graph] at hoperate
    rw [use_operation, use_operation, hoperate]
  | teardown => rfl

/-- A history that is not traced is one that is, without hops. -/
theorem useAll_untraced (g : Graph π κ) (us : List Use) :
    g.untraced.useAll us = ((g.useAll us).1, (g.useAll us).2.untraced) := by
  induction us generalizing g with
  | nil => rfl
  | cons u us ih => rw [useAll_cons, useAll_cons, use_untraced, ih]

/-- What activating reports without being traced is what it reports when it is, without hops, however it
ends. -/
theorem leftBy_activate_untraced (config : Config) (wired : Plan.Wired π κ) :
    Engine.leftBy (activate wired.constants (engineOf { config with trace := false } wired)) =
      (Engine.leftBy
        (activate wired.constants (engineOf { config with trace := true } wired))).untraced := by
  have hsees := View.sees_activate wired.constants (engineOf { config with trace := true } wired)
  rw [View.Sees, View.withoutHops_engineOf] at hsees
  rw [hsees, ← Engine.withoutHops_engine]
  cases activate wired.constants (engineOf { config with trace := true } wired) <;> rfl

/-- The first graph is traced, the second one is the same but not traced, and has the same lines but those
of hops. -/
structure TracesMore (g g' : Graph π κ) : Prop where
  traced : g.engine.config.trace = true
  rest : g' = { g with engine := { g.engine with
    config := { g.engine.config with trace := false }
    log := g'.engine.log } }
  lines : linesOf g'.engine.log = linesWithoutHops g.engine.log

omit [Process π] [Condition κ] in
/-- A traced graph differs by its lines of hops, and by the option, from what it would be untraced. -/
theorem tracesMore_untraced (h : g.engine.config.trace = true) : TracesMore g g.untraced :=
  ⟨h, rfl, lines_logWithoutHops g.engine.log⟩

/-- **Tracing only adds lines.** A build that is traced and one that is not come to the same: to a graph
that is then the same after the same uses, answer by answer, but for the trace and the lines of hops; or
to the same failure, with the same lines but those of hops. What activating reports before it ends, be it
by a failure or by force, is the same in either case but for those lines. -/
theorem tracing_only_adds_lines (registry : Registry π κ) (config : Config) (spec : SpecNode) :
    let on : Config := { config with trace := true }
    let off : Config := { config with trace := false }
    (match build registry on spec, build registry off spec with
      | .ok g, .ok g' => ∀ us : List Use,
          (g'.useAll us).1 = (g.useAll us).1 ∧ TracesMore (g.useAll us).2 (g'.useAll us).2
      | .error (.failed f), .error (.failed f') =>
          f'.error = f.error ∧ linesOf f'.log = linesWithoutHops f.log
      | .error (.stopped stop), .error (.stopped stop') => stop' = stop
      | _, _ => False) ∧
      ∀ root scope wired, assemble registry spec = .ok (root, scope, wired) →
        linesOf (Engine.leftBy (activate wired.constants (engineOf off wired))).log =
          linesWithoutHops (Engine.leftBy (activate wired.constants (engineOf on wired))).log := by
  intro on off
  refine ⟨?_, fun root scope wired _ => ?_⟩
  · rw [build_withoutHops]
    cases hbuild : build registry on spec with
    | error stop =>
      cases stop with
      | failed f => exact ⟨rfl, lines_logWithoutHops f.log⟩
      | stopped stop => rfl
    | ok g =>
      show ∀ us : List Use, _
      intro us
      have hconfig := ((inOrder_of_build hbuild).useAll us).config
      rw [withoutHops_graph, useAll_untraced]
      exact ⟨rfl, tracesMore_untraced (congrArg Config.trace hconfig)⟩
  · rw [leftBy_activate_untraced]
    exact lines_logWithoutHops _

end Graph

end Dataflow
