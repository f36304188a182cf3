import Dataflow.Cli.Program
import Dataflow.Proofs.Logs

/-!
# What sessions print

A session prints what its graph puts out and renders, and takes it from the logs of the graph. What it
asks of the graph are operations, and the same operations may be done with the graph as it was built, with
nothing printed and nothing taken. Their logs are what there was to print. The session and this graph do
the same throughout (`Told`), turn by turn (`Account.turn`), so what a session has printed is what the
logs held after all its operations, but for those since it last printed (`Unprinted`): none when the
session ends well or cannot read an input, and the one that fails when the graph stops
(`prints_until_stopped`). Then what these have put out is lost (`stopped_run_loses_values`).
-/

namespace Dataflow.Cli

open Engine

/-! ## Lines -/

/-- The lines are those for the values of both logs, the values of each log in their order. -/
def Prints (lines : List String) (outputs rendered : Array Value) : Prop :=
  ∃ entries : List (Value ⊕ Value),
    lines = entries.map (Sum.elim (logLine "output") (logLine "render")) ∧
      entries.filterMap Sum.getLeft? = outputs.toList ∧
      entries.filterMap Sum.getRight? = rendered.toList

/-- Nothing is printed for empty logs. -/
theorem Prints.nil : Prints [] #[] #[] := ⟨[], rfl, rfl, rfl⟩

/-- What is printed for some values, and then for more, is printed for all of them. -/
theorem Prints.append {lines lines' : List String} {outputs rendered outputs' rendered' : Array Value}
    (h : Prints lines outputs rendered) (h' : Prints lines' outputs' rendered') :
    Prints (lines ++ lines') (outputs ++ outputs') (rendered ++ rendered') := by
  obtain ⟨entries, rfl, houtputs, hrendered⟩ := h
  obtain ⟨entries', rfl, houtputs', hrendered'⟩ := h'
  exact ⟨entries ++ entries', by simp, by simp [houtputs, houtputs'], by simp [hrendered, hrendered']⟩

/-- The lines for what has come out of a graph. -/
def logLines (g : CatalogueGraph) : List String :=
  g.engine.outputs.toList.map (logLine "output") ++ g.engine.rendered.toList.map (logLine "render")

/-- Outputs are printed first, and then what was rendered. -/
theorem prints_logLines (g : CatalogueGraph) :
    Prints (logLines g) g.engine.outputs g.engine.rendered := by
  refine ⟨g.engine.outputs.toList.map .inl ++ g.engine.rendered.toList.map .inr, ?_, ?_, ?_⟩
  · simp [logLines, Function.comp_def]
  · simp [List.filterMap_map, Function.comp_def]
  · simp [List.filterMap_map, Function.comp_def]

/-- The graph when its values are printed. -/
def emptied (g : CatalogueGraph) : CatalogueGraph :=
  { g with engine := { g.engine with outputs := #[], rendered := #[] } }

/-- The graph when its events are reported. -/
def quieted (g : CatalogueGraph) : CatalogueGraph :=
  { g with engine := { g.engine with log := #[] } }

/-! ## Acts of a turn -/

/-- How a session ends when its graph stops. -/
def endingOf : Stop → Ending
  | .failed e => .failed (.run e)
  | stop => .crashed stop

section

variable {α β : Type} {st st' : CatalogueGraph × List String}

/-- A turn goes on from an act that succeeds. -/
theorem run_bind_of_ok {x : Playing α} {f : α → Playing β} {a : α} (h : x.run st = (.ok a, st')) :
    (x >>= f).run st = (f a).run st' := by
  show ExceptT.bindCont f (x.run st).1 (x.run st).2 = _
  rw [h]
  rfl

/-- A turn is over with an act that fails. -/
theorem run_bind_of_error {x : Playing α} {f : α → Playing β} {ending : Ending}
    (h : x.run st = (.error ending, st')) : (x >>= f).run st = (.error ending, st') := by
  show ExceptT.bindCont f (x.run st).1 (x.run st).2 = _
  rw [h]
  rfl

/-- An act of which the answer is not needed succeeds alike. -/
theorem run_discard_of_ok {x : Playing α} {a : α} (h : x.run st = (.ok a, st')) :
    (discard x).run st = (.ok (), st') := by
  have hmap : (discard x : Playing Unit) = x >>= fun _ => pure () := map_eq_pure_bind _ x
  rw [hmap, run_bind_of_ok h]
  rfl

/-- An act of which the answer is not needed fails alike. -/
theorem run_discard_of_error {x : Playing α} {ending : Ending} (h : x.run st = (.error ending, st')) :
    (discard x).run st = (.error ending, st') := by
  have hmap : (discard x : Playing Unit) = x >>= fun _ => pure () := map_eq_pure_bind _ x
  rw [hmap, run_bind_of_error h]

namespace Session

/-- To print the logs is to take them out of the graph. -/
theorem run_printLogs (g : CatalogueGraph) (lines : List String) :
    printLogs.run (g, lines) = (.ok (), (emptied g, lines ++ logLines g)) := rfl

/-- An act leaves its graph in the session, whether it succeeds or not. -/
theorem run_perform (act : Act CatalogueProcess CatalogueCondition α) (g : CatalogueGraph)
    (lines : List String) :
    (perform act).run (g, lines) =
      ((g.perform act).1.mapError endingOf, ((g.perform act).2, lines)) := by
  have hget : (get : Playing (CatalogueGraph × List String)).run (g, lines) =
      (.ok (g, lines), (g, lines)) := rfl
  have hset : (set ((g.perform act).2, lines) : Playing PUnit).run (g, lines) =
      (.ok ⟨⟩, ((g.perform act).2, lines)) := rfl
  unfold perform
  rw [run_bind_of_ok hget]
  dsimp only
  rw [run_bind_of_ok hset]
  cases (g.perform act).1 with
  | ok a => rfl
  | error stop => cases stop <;> rfl

/-- What an act comes to in a session, by the operation that does the act. -/
theorem run_operation {act : Act CatalogueProcess CatalogueCondition α} {answer : α → Answer}
    (g : CatalogueGraph) (op : Operation) (hact : g.act op = (do return answer (← act)))
    (lines : List String) :
    (∃ a, (perform act).run (g, lines) = (.ok a, ((g.operate op).2, lines))) ∨
      ∃ stop, (perform act).run (g, lines) = (.error (endingOf stop), ((g.operate op).2, lines)) ∧
        (g.operate op).1 = .error stop := by
  rw [run_perform, Graph.operate, hact]
  unfold Graph.perform
  cases h : act g.engine with
  | ok a s =>
    rw [bind_of_ok h]
    exact .inl ⟨a, rfl⟩
  | error stop s =>
    rw [bind_of_error h]
    exact .inr ⟨stop, rfl, rfl⟩

end Session

end

/-! ## Turns -/

namespace Session

/-- What a turn asks of the graph. -/
def operations (s : Session) : List Operation :=
  match s.stage, s.inputs with
  | .drive, _ => if s.realtime then [] else [.settle]
  | .round, _ => [.runUntilIdle]
  | .elapsed span, _ => [.advanceBy span]
  | .input, [] => []
  | .input, text :: _ =>
    match Value.ofJson text with
    | .ok value => [.push value]
    | .error _ => []

/-- No turn asks for the logs but by printing them. -/
theorem leavesLogs_operations (s : Session) : ∀ op ∈ s.operations, op.LeavesLogs := by
  obtain ⟨graph, realtime, inputs, stage⟩ := s
  intro op hop
  cases stage with
  | drive =>
    cases realtime with
    | true => cases hop
    | false =>
      cases List.mem_singleton.1 hop
      trivial
  | round | elapsed =>
    cases List.mem_singleton.1 hop
    trivial
  | input =>
    cases inputs with
    | nil => cases hop
    | cons text rest =>
      unfold operations at hop
      dsimp only at hop
      split at hop
      · cases List.mem_singleton.1 hop
        trivial
      · cases hop

/-- A session after some turns: what it has asked of the graph, what it has printed, and what follows. -/
inductive Played (start : Session) : List Operation → List String → Next → Prop
  | first : Played start start.operations start.turn.lines start.turn.next
  | turn {ops : List Operation} {lines : List String} {pause : Nat} {s : Session}
    (h : Played start ops lines (.goesOn pause s)) :
    Played start (ops ++ s.operations) (lines ++ s.turn.lines) s.turn.next

/-- How a turn can go: what it asks of the graph, what it prints, and what follows. -/
inductive Turns (s : Session) : List Operation → List String → Next → Prop
  | started (hstage : s.stage = .drive) (hrealtime : s.realtime = true) :
    Turns s [] (logLines s.graph)
      (.goesOn 0 { s with graph := quieted (emptied s.graph), stage := .round })
  | settled {g : CatalogueGraph} (hstage : s.stage = .drive) (hrealtime : s.realtime = false)
    (hgraph : ((emptied s.graph).operate .settle).2 = g) :
    Turns s [.settle] (logLines s.graph ++ logLines g)
      (.goesOn 0 { s with graph := quieted (emptied g), stage := .input })
  | unsettled {stop : Stop} (hstage : s.stage = .drive) (hrealtime : s.realtime = false)
    (hstop : ((emptied s.graph).operate .settle).1 = .error stop) :
    Turns s [.settle] (logLines s.graph) (.ended (endingOf stop))
  | idled {g : CatalogueGraph} {pause : Nat} {stage : Stage} (hstage : s.stage = .round)
    (hgraph : (s.graph.operate .runUntilIdle).2 = g) :
    Turns s [.runUntilIdle] (logLines g)
      (.goesOn pause { s with graph := quieted (emptied g), stage })
  | waited {span : Nat} (hstage : s.stage = .elapsed span) :
    Turns s [.advanceBy span] []
      (.goesOn 0 { s with graph := quieted (s.graph.operate (.advanceBy span)).2, stage := .round })
  | pushed {text : String} {inputs : List String} {value : Value} (hstage : s.stage = .input)
    (hinputs : s.inputs = text :: inputs) :
    Turns s [.push value] []
      (.goesOn 0 ⟨quieted (s.graph.operate (.push value)).2, s.realtime, inputs, .drive⟩)
  | stopped {op : Operation} {stop : Stop} (hstage : s.stage ≠ .drive) (hop : s.operations = [op])
    (hstop : (s.graph.operate op).1 = .error stop) : Turns s [op] [] (.ended (endingOf stop))
  | finished (hstage : s.stage = .input) : Turns s [] [] (.ended .success)
  | unread {text : String} (hstage : s.stage = .input) :
    Turns s [] [] (.ended (.failed (.invalidInput text)))

variable {s : Session} {g : CatalogueGraph} {lines : List String}

/-- A turn that fails ends the session, and what it printed by then stays printed. -/
theorem turn_of_error {ending : Ending}
    (h : s.play.run (s.graph, []) = (.error ending, (g, lines))) :
    s.turn.lines = lines ∧ s.turn.next = .ended ending := by
  unfold turn
  rw [h]
  exact ⟨rfl, rfl⟩

/-- A turn with nothing to go on with ends the session well. -/
theorem turn_of_none (h : s.play.run (s.graph, []) = (.ok none, (g, lines))) :
    s.turn.lines = lines ∧ s.turn.next = .ended .success := by
  unfold turn
  rw [h]
  exact ⟨rfl, rfl⟩

/-- A turn that goes on reports the events of the graph. -/
theorem turn_of_some {pause : Nat} {inputs : List String} {stage : Stage}
    (h : s.play.run (s.graph, []) = (.ok (some (pause, inputs, stage)), (g, lines))) :
    s.turn.lines = lines ∧
      s.turn.next = .goesOn pause { s with graph := quieted g, inputs, stage } := by
  unfold turn
  rw [h]
  exact ⟨rfl, rfl⟩

section

variable (graph : CatalogueGraph) (realtime : Bool) (inputs : List String)

/-- Driving prints what there is, and with virtual time settles and prints again. -/
theorem turns_drive :
    let s : Session := ⟨graph, realtime, inputs, .drive⟩
    s.Turns s.operations s.turn.lines s.turn.next := by
  intro s
  have hprint := run_printLogs graph []
  cases realtime with
  | true =>
    have hplay : s.play.run (graph, []) =
        (.ok (some (0, inputs, .round)), (emptied graph, logLines graph)) :=
      (run_bind_of_ok hprint).trans rfl
    obtain ⟨hlines, hnext⟩ := turn_of_some hplay
    rw [hlines, hnext]
    exact .started rfl rfl
  | false =>
    have hplay : s.play.run (graph, []) =
        (do perform Engine.settle; printLogs; return some (0, inputs, .input) :
          Playing (Option (Nat × List String × Stage))).run (emptied graph, logLines graph) :=
      run_bind_of_ok hprint
    -- What was there before settling is printed even if settling fails.
    rcases run_operation (emptied graph) .settle rfl (logLines graph) with
      ⟨a, hsettle⟩ | ⟨stop, hsettle, hstop⟩
    · rw [run_bind_of_ok hsettle, run_bind_of_ok (run_printLogs _ _)] at hplay
      obtain ⟨hlines, hnext⟩ := turn_of_some hplay
      rw [hlines, hnext]
      exact .settled rfl rfl rfl
    · rw [run_bind_of_error hsettle] at hplay
      obtain ⟨hlines, hnext⟩ := turn_of_error hplay
      rw [hlines, hnext]
      exact .unsettled rfl rfl hstop

/-- A round runs what is due and prints it, and then waits for a timer or for an input. -/
theorem turns_round :
    let s : Session := ⟨graph, realtime, inputs, .round⟩
    s.Turns s.operations s.turn.lines s.turn.next := by
  intro s
  rcases run_operation graph .runUntilIdle rfl [] with ⟨a, hrun⟩ | ⟨stop, hrun, hstop⟩
  · have hplay : s.play.run (graph, []) = _ := run_bind_of_ok (run_discard_of_ok hrun)
    rw [run_bind_of_ok (run_printLogs _ _)] at hplay
    generalize hgraph : (graph.operate .runUntilIdle).2 = g at hplay
    have hnext : ∃ pause stage, s.play.run (graph, []) =
        (.ok (some (pause, inputs, stage)), (emptied g, logLines g)) := by
      have hget : (get : Playing (CatalogueGraph × List String)).run (emptied g, [] ++ logLines g) =
          (.ok (emptied g, logLines g), (emptied g, logLines g)) := rfl
      rw [run_bind_of_ok hget] at hplay
      dsimp only at hplay
      -- Which of the two follows makes no difference to what was printed.
      cases htimer : (emptied g).timeToNextTimer? with
      | none =>
        rw [htimer] at hplay
        exact ⟨_, _, hplay⟩
      | some span =>
        rw [htimer] at hplay
        exact ⟨_, _, hplay⟩
    obtain ⟨pause, stage, hplay⟩ := hnext
    obtain ⟨hlines, hnext⟩ := turn_of_some hplay
    rw [hlines, hnext]
    exact .idled rfl hgraph
  · have hplay : s.play.run (graph, []) = _ := run_bind_of_error (run_discard_of_error hrun)
    obtain ⟨hlines, hnext⟩ := turn_of_error hplay
    rw [hlines, hnext]
    exact .stopped nofun rfl hstop

/-- What has elapsed is added to the time of the graph, with nothing printed. -/
theorem turns_elapsed (span : Nat) :
    let s : Session := ⟨graph, realtime, inputs, .elapsed span⟩
    s.Turns s.operations s.turn.lines s.turn.next := by
  intro s
  rcases run_operation graph (.advanceBy span) rfl [] with ⟨a, hrun⟩ | ⟨stop, hrun, hstop⟩
  · have hplay : s.play.run (graph, []) = _ := run_bind_of_ok hrun
    obtain ⟨hlines, hnext⟩ := turn_of_some hplay
    rw [hlines, hnext]
    exact .waited rfl
  · have hplay : s.play.run (graph, []) = _ := run_bind_of_error hrun
    obtain ⟨hlines, hnext⟩ := turn_of_error hplay
    rw [hlines, hnext]
    exact .stopped nofun rfl hstop

/-- An input that cannot be read ends the session before anything is asked of the graph. -/
theorem turns_unread {text : String} {rest : List String} {e : Json.ReadError}
    (hvalue : Value.ofJson text = .error e) :
    let s : Session := ⟨graph, realtime, text :: rest, .input⟩
    s.Turns s.operations s.turn.lines s.turn.next := by
  intro s
  have hops : s.operations = [] := by
    show (match Value.ofJson text with | .ok value => [Operation.push value] | .error _ => []) = []
    rw [hvalue]
  have hread : (readInput text).run (graph, []) =
      (.error (.failed (.invalidInput text)), (graph, [])) := by
    rw [readInput, hvalue]
    rfl
  have hplay : s.play.run (graph, []) = _ := run_bind_of_error hread
  obtain ⟨hlines, hnext⟩ := turn_of_error hplay
  rw [hops, hlines, hnext]
  exact .unread rfl

/-- An input that is read is pushed, with nothing printed. -/
theorem turns_push {text : String} {rest : List String} {value : Value}
    (hvalue : Value.ofJson text = .ok value) :
    let s : Session := ⟨graph, realtime, text :: rest, .input⟩
    s.Turns s.operations s.turn.lines s.turn.next := by
  intro s
  have hops : s.operations = [.push value] := by
    show (match Value.ofJson text with | .ok value => [Operation.push value] | .error _ => []) = _
    rw [hvalue]
  have hread : (readInput text).run (graph, []) = (.ok value, (graph, [])) := by
    rw [readInput, hvalue]
    rfl
  have hget : (get : Playing (CatalogueGraph × List String)).run (graph, []) =
      (.ok (graph, []), (graph, [])) := rfl
  have hplay : s.play.run (graph, []) = _ := run_bind_of_ok hread
  rw [run_bind_of_ok hget] at hplay
  rw [hops]
  rcases run_operation graph (.push value) rfl [] with ⟨a, hrun⟩ | ⟨stop, hrun, hstop⟩
  · rw [run_bind_of_ok hrun] at hplay
    obtain ⟨hlines, hnext⟩ := turn_of_some hplay
    rw [hlines, hnext]
    exact .pushed rfl rfl
  · rw [run_bind_of_error hrun] at hplay
    obtain ⟨hlines, hnext⟩ := turn_of_error hplay
    rw [hlines, hnext]
    exact .stopped nofun hops hstop

/-- The next input is read and pushed, and after the last one the graph is freed. -/
theorem turns_input :
    let s : Session := ⟨graph, realtime, inputs, .input⟩
    s.Turns s.operations s.turn.lines s.turn.next := by
  intro s
  cases inputs with
  | nil =>
    have hplay : s.play.run (graph, []) = (.ok none, ((graph.perform teardown).2, [])) := rfl
    obtain ⟨hlines, hnext⟩ := turn_of_none hplay
    rw [hlines, hnext]
    exact .finished rfl
  | cons text rest =>
    cases hvalue : Value.ofJson text with
    | error e => exact turns_unread graph realtime hvalue
    | ok value => exact turns_push graph realtime hvalue

end

/-- Every turn goes in one of these ways. -/
theorem turns_turn (s : Session) : s.Turns s.operations s.turn.lines s.turn.next := by
  obtain ⟨graph, realtime, inputs, stage⟩ := s
  cases stage with
  | drive => exact turns_drive graph realtime inputs
  | round => exact turns_round graph realtime inputs
  | elapsed span => exact turns_elapsed graph realtime inputs span
  | input => exact turns_input graph realtime inputs

/-! ### Sessions with virtual time -/

/-- With virtual time a session drives or takes an input. -/
structure Virtual (s : Session) : Prop where
  realtime : s.realtime = false
  stage : s.stage = .drive ∨ s.stage = .input

/-- How many turns a session with virtual time has left, at most. -/
def turnsLeft (s : Session) : Nat :=
  if s.stage = .drive then 2 * s.inputs.length + 2 else 2 * s.inputs.length + 1

/-- With virtual time a session ends with a turn, or goes on with fewer turns left. -/
theorem Virtual.turn {ops : List Operation} {next : Next} (h : s.Virtual)
    (hturn : s.Turns ops lines next) :
    (∃ ending, next = .ended ending) ∨
      ∃ pause s', next = .goesOn pause s' ∧ s'.Virtual ∧ s'.turnsLeft < s.turnsLeft := by
  have hneither : ∀ {stage : Stage}, s.stage = stage → stage ≠ .drive → stage ≠ .input → False :=
    fun hstage hdrive hinput => h.stage.elim (fun hs => hdrive (hstage.symm.trans hs))
      fun hs => hinput (hstage.symm.trans hs)
  cases hturn with
  | started _ hrealtime => cases h.realtime.symm.trans hrealtime
  | settled hstage =>
    refine .inr ⟨0, _, rfl, ⟨h.realtime, .inr rfl⟩, ?_⟩
    simp [turnsLeft, hstage]
  | pushed hstage hinputs =>
    refine .inr ⟨0, _, rfl, ⟨h.realtime, .inl rfl⟩, ?_⟩
    simp only [turnsLeft, hstage, hinputs, List.length_cons, ↓reduceIte, reduceCtorEq]
    omega
  | idled hstage => exact (hneither hstage nofun nofun).elim
  | waited hstage => exact (hneither hstage nofun nofun).elim
  | _ => exact .inl ⟨_, rfl⟩

/-- With virtual time a session ends. -/
theorem Virtual.exists_ended {start : Session} (h : s.Virtual) {ops : List Operation}
    (hplayed : start.Played ops lines s.turn.next) :
    ∃ ops lines ending, start.Played ops lines (.ended ending) := by
  induction hleft : s.turnsLeft using Nat.strongRecOn generalizing s ops lines with
  | ind n ih =>
    rcases h.turn s.turns_turn with ⟨ending, hnext⟩ | ⟨pause, s', hnext, hvirtual, hlt⟩
    · exact ⟨ops, lines, ending, hnext ▸ hplayed⟩
    · rw [hnext] at hplayed
      exact ih s'.turnsLeft (hleft ▸ hlt) hvirtual hplayed.turn rfl

end Session

/-! ## What has been told of a graph -/

/-- The second graph is the first one but for its logs, and all that is missing there was printed. -/
def Told (g h : CatalogueGraph) (lines : List String) : Prop :=
  ∃ past : Logs, g = h.after past ∧ Prints lines past.outputs past.rendered

namespace Told

variable {g h : CatalogueGraph} {lines : List String}

/-- When the logs are printed, all that was in the logs of the first graph was printed. -/
theorem print (htold : Told g h lines) :
    Told g (emptied h) (lines ++ logLines h) ∧
      Prints (lines ++ logLines h) g.engine.outputs g.engine.rendered := by
  obtain ⟨past, rfl, hprints⟩ := htold
  have hall := hprints.append (prints_logLines h)
  refine ⟨⟨⟨past.outputs ++ h.engine.outputs, past.rendered ++ h.engine.rendered, past.log⟩, ?_, hall⟩,
    hall⟩
  simp [Graph.after, Engine.after, emptied]

/-- Reporting events says nothing of what was put out. -/
theorem quiet (htold : Told g h lines) : Told g (quieted h) lines := by
  obtain ⟨past, rfl, hprints⟩ := htold
  refine ⟨⟨past.outputs, past.rendered, past.log ++ h.engine.log⟩, ?_, hprints⟩
  simp [Graph.after, Engine.after, quieted]

/-- Both graphs answer alike, and the same is printed of them afterwards. -/
theorem operate (htold : Told g h lines) (op : Operation) (hop : op.LeavesLogs) :
    Told (g.operate op).2 (h.operate op).2 lines ∧
      ∀ stop, (g.operate op).1 = .error stop ↔ (h.operate op).1 = .error stop := by
  obtain ⟨past, rfl, hprints⟩ := htold
  obtain ⟨hengine, hstop⟩ := Graph.operate_after past h hop
  exact ⟨⟨past, hengine, hprints⟩, hstop⟩

end Told

/-! ## Accounts of sessions -/

/-- The operations of a session since it last printed, by what it does next. -/
inductive Pending : Stage → List Operation → Prop
  | nothing (stage : Stage) : Pending stage []
  | pushed (value : Value) : Pending .drive [.push value]
  | waited (span : Nat) : Pending .round [.advanceBy span]

/-- Only a drive or a round may find something unprinted. -/
theorem Pending.eq_nil {stage : Stage} {ops : List Operation} (h : Pending stage ops)
    (hstage : stage ≠ .drive ∧ stage ≠ .round) : ops = [] := by
  cases h with
  | nothing => rfl
  | pushed => exact absurd rfl hstage.1
  | waited => exact absurd rfl hstage.2

/-- The operations of a session since it last printed, by what follows. The graph is the one that it last
printed. A session that ends has printed everything, unless the last operation stops the graph. -/
inductive Unprinted (g : CatalogueGraph) : Next → List Operation → Prop
  | goesOn {pause : Nat} {s : Session} {ops : List Operation} (h : Pending s.stage ops) :
    Unprinted g (.goesOn pause s) ops
  | succeeded : Unprinted g (.ended .success) []
  | invalidInput (text : String) : Unprinted g (.ended (.failed (.invalidInput text))) []
  | stopped {op : Operation} {stop : Stop} (h : (g.operate op).1 = .error stop) :
    Unprinted g (.ended (endingOf stop)) [op]
  | stoppedAfterWait {span : Nat} {stop : Stop}
    (h : ((g.operate (.advanceBy span)).2.operate .runUntilIdle).1 = .error stop) :
    Unprinted g (.ended (endingOf stop)) [.advanceBy span, .runUntilIdle]

/-- An account of a session that was played: what it has printed is what the logs held after some of its
operations, and the others are unprinted. -/
structure Account (g : CatalogueGraph) (ops : List Operation) (lines : List String) (next : Next) :
    Prop where
  split : ∃ shown hidden, ops = shown ++ hidden ∧
    Prints lines (g.operateAll shown).2.engine.outputs (g.operateAll shown).2.engine.rendered ∧
    Unprinted (g.operateAll shown).2 next hidden
  told : ∀ pause s, next = .goesOn pause s → Told (g.operateAll ops).2 s.graph lines

namespace Account

variable {g : CatalogueGraph} {ops : List Operation} {lines : List String} {pause : Nat} {next : Next}

/-- The account of a session that has just printed. -/
theorem of_prints (hprints : Prints lines (g.operateAll ops).2.engine.outputs
      (g.operateAll ops).2.engine.rendered)
    (hunprinted : Unprinted (g.operateAll ops).2 next [])
    (htold : ∀ pause s, next = .goesOn pause s → Told (g.operateAll ops).2 s.graph lines) :
    Account g ops lines next :=
  ⟨⟨ops, [], (List.append_nil _).symm, hprints, hunprinted⟩, htold⟩

/-- The account of a session that has done one more operation and not printed since. -/
theorem of_operation {s s' : Session} {op : Operation}
    (hprints : Prints lines (g.operateAll ops).2.engine.outputs (g.operateAll ops).2.engine.rendered)
    (htold : Told (g.operateAll ops).2 s.graph lines) (hop : op.LeavesLogs)
    (hgraph : s'.graph = quieted (s.graph.operate op).2) (hpending : Pending s'.stage [op]) :
    Account g (ops ++ [op]) lines (.goesOn pause s') := by
  refine ⟨⟨ops, [op], rfl, hprints, .goesOn hpending⟩, fun _ _ hnext => ?_⟩
  cases hnext
  rw [Graph.operateAll_concat, hgraph]
  exact (htold.operate op hop).1.quiet

/-- The account of a session that has ended. -/
theorem of_ended {ending : Ending} {more : List Operation}
    (hprints : Prints lines (g.operateAll ops).2.engine.outputs (g.operateAll ops).2.engine.rendered)
    (hunprinted : Unprinted (g.operateAll ops).2 (.ended ending) more) :
    Account g (ops ++ more) lines (.ended ending) :=
  ⟨⟨ops, more, rfl, hprints, hunprinted⟩, fun _ _ hnext => by cases hnext⟩

/-- A drive begins by printing what is there, so a turn that drives is accounted for. -/
theorem of_drive {s : Session} {more : List Operation} {lines' : List String}
    (htold : Told (g.operateAll ops).2 s.graph lines) (hstage : s.stage = .drive)
    (hturn : s.Turns more lines' next) : Account g (ops ++ more) (lines ++ lines') next := by
  obtain ⟨hemptied, hprinted⟩ := htold.print
  cases hturn with
  | started =>
    rw [List.append_nil]
    refine of_prints hprinted (.goesOn (.nothing _)) fun _ _ hnext => ?_
    cases hnext
    exact hemptied.quiet
  | settled _ _ hgraph =>
    have hsettled := (hemptied.operate .settle trivial).1
    rw [hgraph, ← Graph.operateAll_concat] at hsettled
    rw [← List.append_assoc]
    refine of_prints hsettled.print.2 (.goesOn (.nothing _)) fun _ _ hnext => ?_
    cases hnext
    exact hsettled.print.1.quiet
  | unsettled _ _ hstop =>
    exact of_ended hprinted (.stopped (((hemptied.operate .settle trivial).2 _).2 hstop))
  | stopped hdrive => exact absurd hstage hdrive
  | idled h | waited h | pushed h | finished h | unread h => cases hstage.symm.trans h

/-- A turn is accounted for. -/
theorem turn {s : Session} {more : List Operation} {lines' : List String}
    (h : Account g ops lines (.goesOn pause s)) (hturn : s.Turns more lines' next) :
    Account g (ops ++ more) (lines ++ lines') next := by
  have htold : Told (g.operateAll ops).2 s.graph lines := h.told pause s rfl
  obtain ⟨shown, hidden, rfl, hprints, hunprinted⟩ := h.split
  obtain @⟨_, _, _, hpending⟩ := hunprinted
  -- Nothing is unprinted but before a drive, and before a round.
  have hnothing : ∀ {stage : Stage}, s.stage = stage → stage ≠ .drive → stage ≠ .round → hidden = [] :=
    fun hstage hdrive hround => hpending.eq_nil ⟨hstage ▸ hdrive, hstage ▸ hround⟩
  cases hturn with
  | started hstage hrealtime => exact of_drive htold hstage (.started hstage hrealtime)
  | settled hstage hrealtime hgraph => exact of_drive htold hstage (.settled hstage hrealtime hgraph)
  | unsettled hstage hrealtime hstop => exact of_drive htold hstage (.unsettled hstage hrealtime hstop)
  | idled _ hgraph =>
    have hidled := (htold.operate .runUntilIdle trivial).1
    rw [hgraph, ← Graph.operateAll_concat] at hidled
    refine of_prints hidled.print.2 (.goesOn (.nothing _)) fun _ _ hnext => ?_
    cases hnext
    exact hidled.print.1.quiet
  | @waited span hstage =>
    obtain rfl := hnothing hstage nofun nofun
    simp only [List.append_nil] at htold ⊢
    exact of_operation hprints htold trivial rfl (.waited span)
  | @pushed _ inputs value hstage =>
    obtain rfl := hnothing hstage nofun nofun
    simp only [List.append_nil] at htold ⊢
    exact of_operation hprints htold trivial rfl (.pushed value)
  | @stopped op stop hstage hop hstop =>
    have hleaves : op.LeavesLogs := s.leavesLogs_operations op (hop ▸ List.mem_singleton_self op)
    have hstop' := ((htold.operate op hleaves).2 stop).2 hstop
    rw [List.append_nil, List.append_assoc]
    refine of_ended hprints ?_
    obtain ⟨graph, realtime, inputs, stage⟩ := s
    cases hpending with
    | nothing =>
      rw [List.append_nil] at hstop'
      exact .stopped hstop'
    | pushed => exact absurd rfl hstage
    | waited span =>
      cases hop
      rw [Graph.operateAll_concat] at hstop'
      exact .stoppedAfterWait hstop'
  | finished hstage =>
    obtain rfl := hnothing hstage nofun nofun
    rw [List.append_nil, List.append_nil lines]
    exact of_ended hprints .succeeded
  | unread hstage =>
    obtain rfl := hnothing hstage nofun nofun
    rw [List.append_nil, List.append_nil lines]
    exact of_ended hprints (.invalidInput _)

end Account

/-- A session that drives first is accounted for, turn by turn. -/
theorem Session.Played.account {g : CatalogueGraph} {s : Session} {ops : List Operation}
    {lines : List String} {next : Next} (h : s.Played ops lines next) (hgraph : s.graph = quieted g)
    (hstage : s.stage = .drive) : Account g ops lines next := by
  induction h with
  | first =>
    have htold : Told g s.graph [] := by
      refine ⟨⟨#[], #[], g.engine.log⟩, ?_, .nil⟩
      simp [hgraph, Graph.after, Engine.after, quieted]
    have hfirst : Account g ([] ++ s.operations) ([] ++ s.turn.lines) s.turn.next :=
      .of_drive htold hstage s.turns_turn
    exact hfirst
  | turn _ ih => exact ih.turn (Session.turns_turn _)

/-! ## Runs of the program -/

/-- A run that becomes a session drives the graph of its specification first. -/
theorem session_of_start {files : Files} {path : String} {settings : Settings} {inputs : List String}
    {realtime : Bool} {events : List Event} {s : Session}
    (h : (Command.run path settings inputs realtime).start files = .session events s) :
    ∃ config spec g, settings.load files = .ok config ∧ loadSpec files path = .ok spec ∧
      Graph.build Registry.catalogue config spec = .ok g ∧ s = ⟨quieted g, realtime, inputs, .drive⟩ := by
  unfold Command.start withGraph at h
  dsimp only at h
  cases hload : settings.load files with
  | error failure =>
    rw [hload] at h
    cases h
  | ok config =>
    cases hspec : loadSpec files path with
    | error failure =>
      rw [hload, hspec] at h
      cases h
    | ok spec =>
      rw [hload, hspec] at h
      dsimp only [bind, Except.bind, pure, Except.pure] at h
      cases hbuild : Graph.build Registry.catalogue config spec with
      | error stop =>
        rw [hbuild] at h
        cases stop <;> cases h
      | ok g =>
        rw [hbuild] at h
        cases h
        exact ⟨config, spec, g, rfl, rfl, hbuild, rfl⟩

/-- **A run prints everything until its graph stops.** Let a run of the program have become a session, and
let this be played for some turns. Do the same operations with the graph of the specification as it was
built, and take nothing from its logs. Then what was printed are the lines for what the logs of this graph
hold, those of each log in order, but for what the operations added that are unprinted. With virtual time
the run ends. -/
theorem prints_until_stopped {files : Files} {path : String} {settings : Settings}
    {inputs : List String} {realtime : Bool} {events : List Event} {s : Session}
    (hstart : (Command.run path settings inputs realtime).start files = .session events s) :
    ∃ config spec g, settings.load files = .ok config ∧ loadSpec files path = .ok spec ∧
      Graph.build Registry.catalogue config spec = .ok g ∧
      (∀ ops lines next, s.Played ops lines next → ∃ shown hidden, ops = shown ++ hidden ∧
        Prints lines (g.operateAll shown).2.engine.outputs (g.operateAll shown).2.engine.rendered ∧
        Unprinted (g.operateAll shown).2 next hidden) ∧
      (realtime = false → ∃ ops lines ending, s.Played ops lines (.ended ending)) := by
  obtain ⟨config, spec, g, hconfig, hspec, hbuild, rfl⟩ := session_of_start hstart
  refine ⟨config, spec, g, hconfig, hspec, hbuild, fun ops lines next hplayed => ?_, fun hvirtual => ?_⟩
  · exact (hplayed.account rfl rfl).split
  · exact (⟨hvirtual, .inl rfl⟩ : Session.Virtual _).exists_ended .first

/-- A graph that puts a value out before it refuses it: the second producer has no state. -/
def halfway : SpecNode := .component [.ofKind "get", .ofKind "add"] [.ofKind "get"]

/-- The session that a start comes to. -/
def Start.session? : Start → Option Session
  | .session _ s => some s
  | .ended .. => none

/-- The session that follows a turn. -/
def Next.session? : Next → Option Session
  | .goesOn _ s => some s
  | .ended _ => none

/-- A run of this graph ends without having printed the value that was put out. -/
theorem played_halfway :
    ∃ events s ops ending,
      (Command.run "halfway" {} ["1"] false).start (fun _ => some halfway.toJson) = .session events s ∧
        s.Played ops [] (.ended ending) ∧ (s.graph.operateAll ops).2.engine.outputs.size = 1 := by
  have hrun : (((Command.run "halfway" {} ["1"] false).start
      (fun _ => some halfway.toJson)).session?.any fun s => s.turn.next.session?.any fun s' =>
        s.turn.lines.isEmpty && s'.turn.lines.isEmpty && s'.turn.next.session?.isNone &&
          (s.graph.operateAll (s.operations ++ s'.operations)).2.engine.outputs.size == 1) = true := by
    decide +kernel
  cases hstart : (Command.run "halfway" {} ["1"] false).start (fun _ => some halfway.toJson) with
  | ended lines events ending =>
    rw [hstart] at hrun
    cases hrun
  | session events s =>
    rw [hstart] at hrun
    have hplayed : s.Played s.operations s.turn.lines s.turn.next := .first
    cases hfirst : s.turn.next with
    | ended ending =>
      simp [Start.session?, Next.session?, hfirst] at hrun
    | goesOn pause s' =>
      rw [hfirst] at hplayed
      have hended := hplayed.turn
      cases hsecond : s'.turn.next with
      | goesOn pause s'' => simp [Start.session?, Next.session?, hfirst, hsecond] at hrun
      | ended ending =>
        simp only [Start.session?, Next.session?, hfirst, hsecond, Option.any_some, Option.isNone_none,
          Bool.and_true, Bool.and_eq_true, List.isEmpty_iff, beq_iff_eq] at hrun
        obtain ⟨⟨hlines, hlines'⟩, hsize⟩ := hrun
        rw [hsecond, hlines, hlines'] at hended
        exact ⟨events, s, _, ending, rfl, hended, hsize⟩

/-- The run has printed nothing when it ends, as nothing was put out before the operation that stops it. -/
theorem prints_until_stopped_halfway :
    ∃ events s ops ending,
      (Command.run "halfway" {} ["1"] false).start (fun _ => some halfway.toJson) = .session events s ∧
        s.Played ops [] (.ended ending) ∧
        ∃ config spec g, Settings.load (fun _ => some halfway.toJson) {} = .ok config ∧
          loadSpec (fun _ => some halfway.toJson) "halfway" = .ok spec ∧
          Graph.build Registry.catalogue config spec = .ok g ∧ ∃ shown hidden, ops = shown ++ hidden ∧
            Prints [] (g.operateAll shown).2.engine.outputs (g.operateAll shown).2.engine.rendered ∧
            Unprinted (g.operateAll shown).2 (.ended ending) hidden := by
  obtain ⟨events, s, ops, ending, hstart, hplayed, -⟩ := played_halfway
  obtain ⟨config, spec, g, hconfig, hspec, hbuild, hprints, -⟩ := prints_until_stopped hstart
  exact ⟨events, s, ops, ending, hstart, hplayed, config, spec, g, hconfig, hspec, hbuild,
    hprints ops [] (.ended ending) hplayed⟩

/-- A run whose graph stops does lose values. -/
theorem stopped_run_loses_values :
    ¬∀ (files : Files) (path : String) (settings : Settings) (inputs : List String) (realtime : Bool)
      (events : List Event) (s : Session),
      (Command.run path settings inputs realtime).start files = .session events s →
        ∀ (ops : List Operation) (lines : List String) (ending : Ending),
          s.Played ops lines (.ended ending) →
            Prints lines (s.graph.operateAll ops).2.engine.outputs
              (s.graph.operateAll ops).2.engine.rendered := by
  intro hclaim
  obtain ⟨events, s, ops, ending, hstart, hplayed, hsize⟩ := played_halfway
  obtain ⟨entries, hlines, houtputs, -⟩ := hclaim _ _ _ _ _ _ _ hstart _ _ _ hplayed
  obtain rfl : entries = [] := List.map_eq_nil_iff.1 hlines.symm
  rw [← Array.length_toList, ← houtputs] at hsize
  cases hsize

end Dataflow.Cli
