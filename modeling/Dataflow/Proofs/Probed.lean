import Dataflow.Proofs.Probing

/-!
# Requests with probes

One request of a graph, with probes and without. `Probing.Shows` says that a moment at rest is that of a
graph, and that without its probes it is that of another graph. What is asked of the two graphs keeps this:
an operation (`Shows.operate`), which begins alike in both and so ends alike, taking the output log
(`Shows.takeOutputs`), and a tap that is put into the first one alone (`Shows.probed`). And both answer
alike, but for what probes have a part in (`Shows.operate`, `Shows.consult`).
-/

namespace Dataflow

open Moment

namespace Graph

variable {π κ : Type}

/-- What is seen of a node but for its listeners. -/
def cellsOf (n : Node π κ) : NodeKind π κ × Option Value × Option Value := (n.kind, n.input?, n.state?)

/-- The second graph is the first one, but for the output log and the listeners of nodes. -/
structure SameButListeners (g g₁ : Graph π κ) : Prop where
  nodes : ∀ slot, (g₁.engine.arena.get? slot).map cellsOf = (g.engine.arena.get? slot).map cellsOf
  slots : g₁.engine.arena.slots = g.engine.arena.slots
  rest : g₁ = { g with engine := { g.engine with
    arena := g₁.engine.arena
    outputs := g₁.engine.outputs } }

end Graph

/-! ## Acts and their beginnings -/

namespace Engine

variable {π κ : Type}

/-- What is made of the answer of an act that succeeds. -/
theorem exists_of_map_eq_ok {α β : Type} {x : Act π κ α} {f : α → β} {s s' : Engine π κ} {b : β}
    (h : (x >>= fun a => pure (f a)) s = .ok b s') : ∃ a, x s = .ok a s' ∧ b = f a := by
  cases hx : x s with
  | ok a s₁ =>
    rw [bind_of_ok hx] at h
    cases h
    exact ⟨a, rfl, rfl⟩
  | error stop s₁ =>
    rw [bind_of_error hx] at h
    cases h

end Engine

namespace Moment

open Engine

variable {π κ : Type}

/-- The moment without probes. -/
def unprobed (probes : List Place) (outputs : Array Value) (m : Moment π κ) : Moment π κ :=
  { m with engine := m.engine.unprobed probes outputs }

/-- Time passes without probes as it does with them. -/
theorem advancing_unprobed (span : Nat) (s : Engine π κ) (probes : List Place) (outputs : Array Value) :
    advancing span (s.unprobed probes outputs) = (advancing span s).unprobed probes outputs := by
  have hclock : (s.unprobed probes outputs).clock = s.clock := rfl
  unfold advancing
  rw [hclock]
  cases Duration.add? s.clock.now span <;> rfl

/-- An act that does the same without probes ends the same. -/
theorem ended_unprobed {α : Type} {act : Act π κ α} {s : Engine π κ} {probes : List Place}
    {outputs : Array Value}
    (h : act (s.unprobed probes outputs) = resultUnprobed probes outputs (act s)) :
    ended act (s.unprobed probes outputs) = (ended act s).unprobed probes outputs := by
  unfold ended
  rw [h]
  cases act s <;> rfl

end Moment

namespace Graph

open Engine

variable {π κ : Type} {g : Graph π κ}

/-- A tap begins with its listener added, and nothing left to do. -/
theorem begin_tap (root slot : SlotId) (s : Engine π κ) :
    begin root (.tap slot) s =
      match s.arena.get? slot with
      | some n =>
        ⟨{ s with arena := s.arena.set slot { n with outputs := n.outputs ++ [.sink] } }, [], none⟩
      | none => ⟨s, [], none⟩ := by
  unfold begin ended tap
  dsimp only
  rw [addListener_eq]
  cases s.arena.get? slot <;> rfl

/-- Operations that have begun with something to do have not stopped. -/
theorem begin_going (root : SlotId) (op : Operation) (s : Engine π κ)
    (h : (begin root op s).todo ≠ []) : (begin root op s).stop? = none := by
  cases op with
  | advanceBy span =>
    have hgoing : (advancing span s).todo ≠ [] := h
    show (advancing span s).stop? = none
    unfold advancing at hgoing ⊢
    cases hadd : Duration.add? s.clock.now span with
    | none =>
      rw [hadd] at hgoing
      exact absurd rfl hgoing
    | some target => rfl
  | tap slot => exact absurd (ended_todo ..) h
  | _ => rfl

/-- What an act of a graph comes to, from the moment in which it has ended. -/
theorem perform_of_ended {α : Type} (g : Graph π κ) (act : Act π κ α) :
    (g.perform act).2 = { g with engine := (ended act g.engine).engine } ∧
      ∀ stop, (g.perform act).1 = .error stop ↔ (ended act g.engine).stop? = some stop := by
  unfold perform ended
  cases act g.engine with
  | ok a s =>
    refine ⟨rfl, fun stop => ⟨fun h => ?_, fun h => ?_⟩⟩ <;> cases h
  | error stop s =>
    refine ⟨rfl, fun stop' => ⟨fun h => ?_, fun h => ?_⟩⟩ <;> cases h <;> rfl

/-- An answer is that of the act. -/
theorem exists_of_perform_ok {α : Type} {act : Act π κ α} {a : α} (h : (g.perform act).1 = .ok a) :
    ∃ s, act g.engine = .ok a s := by
  unfold perform at h
  cases hact : act g.engine with
  | ok a' s =>
    rw [hact] at h
    cases h
    exact ⟨s, rfl⟩
  | error stop s =>
    rw [hact] at h
    cases h

end Graph

namespace Probing

open Engine

variable {π κ : Type} {m m' : Probing π κ}

/-! ## How requests begin -/

/-- The moment that goes on as a moment without marks does, from where nothing is marked. -/
def goOn (m : Probing π κ) (x : Moment π κ) : Probing π κ :=
  { m with engine := x.engine, todo := x.todo.map (·, false), stop? := x.stop? }

/-- Without marks it is the moment that it goes on as. -/
theorem goOn_moment (m : Probing π κ) (x : Moment π κ) : (m.goOn x).moment = x :=
  congrArg (Moment.mk _ · _) (map_fst_map_false x.todo)

/-- Without probes it is that moment without them. -/
theorem goOn_bare (m : Probing π κ) (x : Moment π κ) :
    (m.goOn x).bare = x.unprobed m.probes (unmarked m.present).toArray :=
  congrArg (Moment.mk _ · _) (unmarked_map_false x.todo)

/-- Nothing is marked to begin with, so the moment is sound if its engine holds the probes. -/
theorem Sound.goOn (h : m.Sound) {x : Moment π κ} (hprobes : x.engine.HoldsProbes m.probes)
    (houtputs : x.engine.outputs = m.engine.outputs) (hgoing : x.todo ≠ [] → x.stop? = none) :
    (m.goOn x).Sound where
  probes := hprobes
  marked job hmem := by
    obtain ⟨_, -, heq⟩ := List.mem_map.1 hmem
    cases heq
  present := houtputs ▸ h.present
  going hne := hgoing fun hnil => hne (congrArg (List.map (·, false)) hnil)

/-- But for taking the output log, an operation begins without probes as it does with them. -/
theorem Sound.begin_unprobed (h : m.Sound) (root : SlotId) {op : Operation} (hop : op ≠ .takeOutputs)
    (outputs : Array Value) :
    Graph.begin root op (m.engine.unprobed m.probes outputs) =
      (Graph.begin root op m.engine).unprobed m.probes outputs := by
  cases op with
  | advanceBy span => exact Moment.advancing_unprobed span m.engine m.probes outputs
  | tap slot => exact Moment.ended_unprobed (addListener_unprobed (fun _ => h.probes.not_mem) .sink)
  | takeOutputs => exact absurd rfl hop
  | _ => rfl

/-- The moment in which an operation begins. -/
def begun (root : SlotId) (op : Operation) (m : Probing π κ) : Probing π κ :=
  m.goOn (Graph.begin root op m.engine)

/-- Without its probes, the moment is the one in which the operation begins without them. -/
theorem Sound.begun_bare (h : m.Sound) (root : SlotId) {op : Operation} (hop : op ≠ .takeOutputs) :
    (m.begun root op).bare = Graph.begin root op m.bare.engine :=
  (goOn_bare m _).trans (h.begin_unprobed root hop _).symm

/-- An operation begins soundly. -/
theorem Sound.begun (h : m.Sound) (root : SlotId) {op : Operation} (hop : op ≠ .takeOutputs) :
    (m.begun root op).Sound := by
  refine h.goOn ?_ ?_ (Graph.begin_going root op m.engine)
  · cases op with
    | advanceBy span => exact (engine_advancing span m.engine).symm ▸ h.probes
    | tap slot =>
      -- A tap adds a listener behind the probes, and moves none of them.
      rw [Graph.begin_tap]
      cases hget : m.engine.arena.get? slot with
      | none => exact h.probes
      | some n => exact h.probes.tapped hget
    | _ => exact h.probes
  · cases op with
    | advanceBy span => exact congrArg Engine.outputs (engine_advancing span m.engine)
    | tap slot =>
      rw [Graph.begin_tap]
      cases m.engine.arena.get? slot <;> rfl
    | takeOutputs => exact absurd rfl hop
    | _ => rfl

/-- The output log is taken. -/
def tookOutputs (m : Probing π κ) : Probing π κ :=
  { m with
    engine := { m.engine with outputs := #[] }
    stop? := none
    taken := m.taken ++ m.present
    present := [] }

/-- A tap that is put in. -/
def probed (root slot : SlotId) (m : Probing π κ) : Probing π κ :=
  match m.engine.arena.get? slot with
  | some n => { m.begun root (.tap slot) with probes := (slot, n.outputs.length) :: m.probes }
  | none => m.begun root (.tap slot)

/-- Putting in a tap takes nothing. -/
theorem probed_taken (root slot : SlotId) (m : Probing π κ) : (m.probed root slot).taken = m.taken := by
  unfold probed
  cases m.engine.arena.get? slot <;> rfl

/-! ## Moments at rest -/

/-- A moment at rest is that of a graph, and without probes it is that of another graph. -/
structure Shows (m : Probing π κ) (g g₁ : Graph π κ) : Prop where
  sound : m.Sound
  rest : m.todo = []
  engine : m.engine = g.engine
  bare : m.bare.engine = g₁.engine
  root : g₁.root = g.root
  scope : g₁.scope = g.scope

variable {g g₁ : Graph π κ}

/-- What is read, but for the output log and listeners, is the same without probes. -/
theorem Shows.consult (h : m.Shows g g₁) {q : Query} (hq : (Request.query q).seesProbes = false) :
    g₁.consult q = g.consult q := by
  obtain ⟨root, scope, s⟩ := g
  obtain ⟨root₁, scope₁, s₁⟩ := g₁
  obtain ⟨-, -, rfl, rfl, -, rfl⟩ := h
  have hlist : m.bare.engine.arena.toList = _ :=
    Arena.toList_mapSlots (Node.unprobed m.probes) m.engine.arena
  have hget : ∀ slot, m.bare.engine.arena.get? slot =
      (m.engine.arena.get? slot).map (Node.unprobed m.probes slot) := fun slot => unprobed_get? slot
  cases q with
  | outputs => cases hq
  | listenersOf slot => cases hq
  | find kind =>
    show Reading.slots (Graph.find _ kind) = Reading.slots (Graph.find _ kind)
    unfold Graph.find
    dsimp only
    rw [hlist, List.filter_map, List.map_map]
    rfl
  | inputOf slot =>
    show Reading.cell ((m.bare.engine.arena.get? slot).bind _) = Reading.cell _
    rw [hget, Option.bind_map]
    rfl
  | stateOf slot =>
    show Reading.cell ((m.bare.engine.arena.get? slot).bind _) = Reading.cell _
    rw [hget, Option.bind_map]
    rfl
  | summary =>
    show Reading.summary (Graph.summary _) = Reading.summary (Graph.summary _)
    unfold Graph.summary
    dsimp only
    rw [hlist, List.map_map]
    rfl
  | _ => rfl

/-- Without probes a graph is the same but for the output log and the listeners. -/
theorem Shows.sameButListeners (h : m.Shows g g₁) : Graph.SameButListeners g g₁ := by
  obtain ⟨root, scope, s⟩ := g
  obtain ⟨root₁, scope₁, s₁⟩ := g₁
  obtain ⟨-, -, rfl, rfl, rfl, rfl⟩ := h
  refine ⟨fun slot => ?_, ?_, rfl⟩
  · have hget : m.bare.engine.arena.get? slot = _ := unprobed_get? slot
    rw [hget, Option.map_map]
    rfl
  · have hlist : m.bare.engine.arena.toList = _ :=
      Arena.toList_mapSlots (Node.unprobed m.probes) m.engine.arena
    show m.bare.engine.arena.toList.map Prod.fst = m.engine.arena.toList.map Prod.fst
    rw [hlist, List.map_map]
    rfl

variable [Process π] [Condition κ]

/-! ## How requests end -/

/-- How a course from one moment to another ends, with probes and without. -/
structure Ends (m m' : Probing π κ) (x y : Moment π κ) : Prop where
  comes : m.Comes m'
  sound : m'.Sound
  rest : m'.todo = []
  moment : m'.moment = x
  bare : m'.bare = y
  taken : m'.taken = m.taken

/-- What was taken stays taken. -/
theorem comes_taken (h : m.Comes m') : m'.taken = m.taken := by
  induction h with
  | refl => rfl
  | tail _ hnext ih =>
    obtain ⟨job, mark, rest, -, ⟨jobs, s', -, rfl⟩ | ⟨stop, s', -, rfl⟩⟩ := next?_cases hnext
    · exact ih
    · exact ih

/-- A course with probes ends as the courses without marks and without probes do. -/
theorem Sound.exists_ends (h : m.Sound) {x y : Moment π κ} (hx : Moment.Comes m.moment x)
    (hy : Moment.Comes m.bare y) (hxrest : x.todo = []) (hyrest : y.todo = []) :
    ∃ m', m.Ends m' x y := by
  obtain ⟨m', hcomes, rfl⟩ := exists_of_comes hx
  have hrest : m'.todo = [] := List.map_eq_nil_iff.1 hxrest
  have hbare : m'.bare.todo = [] := congrArg unmarked hrest
  exact ⟨m', hcomes, h.comes hcomes, hrest, rfl, eq_of_comes (comes_bare h hcomes) hy hbare hyrest,
    comes_taken hcomes⟩

/-! ### Ticks and drives -/

/-- A tick with probes and the same tick without them. -/
theorem Sound.exists_tick (h : m.Sound) {s : Engine π κ} (hsame : m.engine.SameWiring s)
    (houtputs : s.outputs = m.engine.outputs) {count : Nat} {s' : Engine π κ} (htick : tick s = .ok count s') :
    ∃ m' : Probing π κ, m'.Sound ∧ m'.todo = [] ∧ m'.engine = s' ∧ ∃ count,
      tick (s.unprobed m.probes (unmarked m.present).toArray) = .ok count m'.bare.engine := by
  have hsound : (m.goOn ⟨s, [.tick], none⟩).Sound :=
    h.goOn (h.probes.of_sameWiring hsame) houtputs fun _ => rfl
  have hmoment := goOn_moment m ⟨s, [.tick], none⟩
  have hbare : (m.goOn ⟨s, [.tick], none⟩).bare =
      ⟨s.unprobed m.probes (unmarked m.present).toArray, [.tick], none⟩ := goOn_bare m _
  obtain ⟨m', hends⟩ := hsound.exists_ends (hmoment ▸ (unfolds_tick s).comes)
    (hbare ▸ (unfolds_tick _).comes) (ended_todo ..) (ended_todo ..)
  have hmoment : m'.moment = ⟨s', [], none⟩ := by rw [hends.moment, ended, htick]
  have hstop : m'.stop? = none := congrArg Moment.stop? hmoment
  have hrest : m'.bare = ⟨m'.bare.engine, [], none⟩ := by
    rw [bare, hends.rest, hstop]
    rfl
  exact ⟨m', hends.sound, hends.rest, congrArg Moment.engine hmoment,
    ok_of_ended (hends.bare.symm.trans hrest)⟩

/-- A drive without probes has as much of its budget left. -/
theorem Sound.drive_left (h : m.Sound) {horizon : Horizon} {budget left : Nat} {s' : Engine π κ}
    (hdrive : drive horizon budget m.engine = .ok left s') :
    ∃ s₁, drive horizon budget m.bare.engine = .ok left s₁ := by
  induction budget generalizing m with
  | zero =>
    have hbare : makeRunnable horizon m.bare.engine = _ := Blind.makeRunnable horizon m.engine
    rcases makeRunnable_cases horizon m.engine with ⟨s₁, hrunnable⟩ | hidle
    · rw [drive_zero_of_runnable hrunnable] at hdrive
      cases hdrive
    · rw [drive_of_idle hidle] at hdrive
      rw [hidle] at hbare
      cases hdrive
      exact ⟨_, drive_of_idle hbare⟩
  | succ budget ih =>
    have hbare : makeRunnable horizon m.bare.engine = _ := Blind.makeRunnable horizon m.engine
    rcases makeRunnable_cases horizon m.engine with ⟨s₁, hrunnable⟩ | hidle
    · rw [hrunnable] at hbare
      rw [drive_succ_of_runnable hrunnable] at hdrive
      rw [drive_succ_of_runnable hbare]
      have houtputs : s₁.outputs = m.engine.outputs := by
        rcases makeRunnable_engine hrunnable with rfl | ⟨time, rfl⟩ <;> rfl
      cases htick : tick s₁ with
      | error stop s₂ =>
        rw [bind_of_error htick] at hdrive
        cases hdrive
      | ok count s₂ =>
        rw [bind_of_ok htick] at hdrive
        obtain ⟨m', hsound, -, rfl, count', htick'⟩ :=
          h.exists_tick (.of_makeRunnable hrunnable) houtputs htick
        rw [bind_of_ok htick']
        exact ih hsound hdrive
    · rw [drive_of_idle hidle] at hdrive
      rw [hidle] at hbare
      cases hdrive
      exact ⟨_, drive_of_idle hbare⟩

/-! ## Answers -/

/-- A tick tells of the tasks that were queued and due. -/
theorem tick_count {s s' : Engine π κ} {count : Nat} (h : tick s = .ok count s') :
    count = (s.queue ++ s.clock.takeDue.1).toList.length := by
  rw [tick_eq] at h
  obtain ⟨_, -, hcount⟩ := exists_of_map_eq_ok h
  exact hcount

/-- A drive tells of as many ticks without probes as with them. -/
theorem Sound.driveAll_count (h : m.Sound) {horizon : Horizon} {count count₁ : Nat} {s s₁ : Engine π κ}
    (hdrive : driveAll horizon m.engine = .ok count s)
    (hbare : driveAll horizon m.bare.engine = .ok count₁ s₁) : count₁ = count := by
  have hconfig : m.bare.engine.config = m.engine.config := rfl
  rw [driveAll_eq] at hdrive hbare
  rw [hconfig] at hbare
  obtain ⟨left, hleft, rfl⟩ := exists_of_map_eq_ok hdrive
  obtain ⟨left₁, hleft₁, rfl⟩ := exists_of_map_eq_ok hbare
  obtain ⟨s₂, hsame⟩ := h.drive_left hleft
  rw [hsame] at hleft₁
  cases hleft₁
  rfl

/-- Where an operation succeeds with probes and without, it answers the same. -/
theorem Shows.answer (h : m.Shows g g₁) {op : Operation} (hop : op ≠ .takeOutputs)
    {answer answer₁ : Answer} {s s₁ : Engine π κ} (hact : g.act op m.engine = .ok answer s)
    (hact₁ : g₁.act op m.bare.engine = .ok answer₁ s₁) : answer₁ = answer := by
  cases op with
  | push value =>
    obtain ⟨_, -, rfl⟩ := exists_of_map_eq_ok hact
    obtain ⟨_, -, rfl⟩ := exists_of_map_eq_ok hact₁
    rfl
  | tick =>
    obtain ⟨count, hcount, rfl⟩ := exists_of_map_eq_ok hact
    obtain ⟨count₁, hcount₁, rfl⟩ := exists_of_map_eq_ok hact₁
    rw [tick_count hcount, tick_count hcount₁]
    rfl
  | runUntilIdle =>
    obtain ⟨count, hcount, rfl⟩ := exists_of_map_eq_ok hact
    obtain ⟨count₁, hcount₁, rfl⟩ := exists_of_map_eq_ok hact₁
    rw [h.sound.driveAll_count hcount hcount₁]
  | advanceBy span =>
    obtain ⟨_, -, rfl⟩ := exists_of_map_eq_ok hact
    obtain ⟨_, -, rfl⟩ := exists_of_map_eq_ok hact₁
    rfl
  | settle =>
    obtain ⟨_, -, rfl⟩ := exists_of_map_eq_ok hact
    obtain ⟨_, -, rfl⟩ := exists_of_map_eq_ok hact₁
    rfl
  | tap slot =>
    obtain ⟨found, hfound, rfl⟩ := exists_of_map_eq_ok hact
    obtain ⟨found₁, hfound₁, rfl⟩ := exists_of_map_eq_ok hact₁
    have hadd : addListener slot .sink m.bare.engine = _ :=
      addListener_unprobed (fun _ => h.sound.probes.not_mem) .sink
    have hfound : addListener slot .sink m.engine = .ok found s := hfound
    rw [hfound] at hadd
    have hsame := hadd.symm.trans hfound₁
    cases hsame
    rfl
  | takeOutputs => exact absurd rfl hop
  | takeRendered =>
    cases hact
    cases hact₁
    rfl

/-- Operations that fail for the same reasons, with probes and without, are answered the same. -/
theorem Shows.answer_eq (h : m.Shows g g₁) {op : Operation} (hop : op ≠ .takeOutputs)
    (hstop : ∀ stop, (g₁.operate op).1 = .error stop ↔ (g.operate op).1 = .error stop) :
    (g₁.operate op).1 = (g.operate op).1 := by
  cases hanswer : (g.operate op).1 with
  | error stop => exact (hstop stop).2 hanswer
  | ok answer =>
    cases hanswer₁ : (g₁.operate op).1 with
    | error stop =>
      have hfails := (hstop stop).1 hanswer₁
      rw [hanswer] at hfails
      cases hfails
    | ok answer₁ =>
      obtain ⟨s, hact⟩ := Graph.exists_of_perform_ok hanswer
      obtain ⟨s₁, hact₁⟩ := Graph.exists_of_perform_ok hanswer₁
      rw [← h.engine] at hact
      rw [← h.bare] at hact₁
      rw [h.answer hop hact hact₁]

/-! ## Requests -/

/-- **An operation with probes is one without them**, unless it takes the output log. -/
theorem Shows.operate (h : m.Shows g g₁) {op : Operation} (hop : op ≠ .takeOutputs) :
    ∃ m', (m.begun g.root op).Comes m' ∧ m'.Shows (g.operate op).2 (g₁.operate op).2 ∧
      m'.taken = m.taken ∧ (g₁.operate op).1 = (g.operate op).1 := by
  have hcomes := g.comes_act op m.engine
  have hcomes₁ := g₁.comes_act op m.bare.engine
  rw [← goOn_moment m (Graph.begin g.root op m.engine)] at hcomes
  rw [h.root, ← h.sound.begun_bare g.root hop] at hcomes₁
  obtain ⟨m', hends⟩ :=
    (h.sound.begun g.root hop).exists_ends hcomes hcomes₁ (ended_todo ..) (ended_todo ..)
  obtain ⟨hgraph, hstop⟩ := Graph.perform_of_ended g (g.act op)
  obtain ⟨hgraph₁, hstop₁⟩ := Graph.perform_of_ended g₁ (g₁.act op)
  rw [← h.engine, ← hends.moment] at hgraph hstop
  rw [← h.bare, ← hends.bare] at hgraph₁ hstop₁
  refine ⟨m', hends.comes, ⟨hends.sound, hends.rest, ?_, ?_, ?_, ?_⟩, hends.taken, ?_⟩
  · exact (congrArg Graph.engine hgraph).symm
  · exact (congrArg Graph.engine hgraph₁).symm
  · exact (g₁.operate_root op).trans (h.root.trans (g.operate_root op).symm)
  · exact (congrArg Graph.scope hgraph₁).trans (h.scope.trans (congrArg Graph.scope hgraph).symm)
  · exact h.answer_eq hop fun stop => (hstop₁ stop).trans (hstop stop).symm

/-- Taking the output log keeps the two graphs together: each loses what is its own. -/
theorem Shows.takeOutputs (h : m.Shows g g₁) :
    m.tookOutputs.Shows (g.operate .takeOutputs).2 (g₁.operate .takeOutputs).2 := by
  have hengine : (g.operate .takeOutputs).2.engine = { g.engine with outputs := #[] } := rfl
  have hengine₁ : (g₁.operate .takeOutputs).2.engine = { g₁.engine with outputs := #[] } := rfl
  refine ⟨.of_rest h.rest h.sound.probes rfl, h.rest, ?_, ?_, h.root, h.scope⟩
  · rw [hengine, ← h.engine]
    rfl
  · rw [hengine₁, ← h.bare]
    rfl

/-- A tap that is put in makes no difference without probes. -/
theorem Shows.probed (h : m.Shows g g₁) (slot : SlotId) :
    (m.probed g.root slot).Shows (g.operate (.tap slot)).2 g₁ := by
  have hgraph : (g.operate (.tap slot)).2 = _ := congrArg Prod.snd (Graph.operate_tap g slot)
  rw [← h.engine] at hgraph
  unfold Probing.probed begun
  rw [Graph.begin_tap]
  cases hget : m.engine.arena.get? slot with
  | none =>
    rw [hget] at hgraph
    rw [hgraph]
    exact ⟨.of_rest rfl h.sound.probes h.sound.present, rfl, h.engine, h.bare, h.root, h.scope⟩
  | some n =>
    rw [hget] at hgraph
    rw [hgraph]
    exact ⟨.of_rest rfl (h.sound.probes.probed hget) h.sound.present, rfl, rfl,
      (unprobed_probe hget .sink).trans h.bare, h.root, h.scope⟩

end Probing

end Dataflow
