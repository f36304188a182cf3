import Dataflow.Proofs.Ascent
import Dataflow.Proofs.FanOut
import Dataflow.Proofs.Unfolding
import Mathlib.Data.List.Perm.Subperm

/-!
# Inputs in progress

The inputs that are in progress at a moment are nested, the innermost one first. In a built graph
values ascend, so every job that is still to be done within an input is one of a higher rank than
the input (`Orderly`), and no node is entered again while its input is in progress. Inputs then nest
no deeper than there are nodes, and a graph that is allowed as much never fails for the depth of its
inputs.
-/

namespace Dataflow

open Moment

/-! ## Jobs within reach -/

namespace Reach

variable {π κ : Type} {r : Reach} {s s' : Engine π κ} {job j : Job}

/-- Whether what a job leads to is within reach. -/
def Allows (r : Reach) : Job → Prop
  | .enter slot _ | .handle slot _ | .route slot _ => r.delivers (.input slot)
  | .relay _ slot _ | .kindle slot => r.delivers (.output slot)
  | .deliver _ listener _ | .hand listener _ => r.delivers listener
  | .carryOut slot effect => r.delivers (.output slot) ∧
    ∀ delay value, effect = .emitAfter delay value → r.defers (.emit slot value)
  | .batch tasks => ∀ task ∈ tasks, r.defers task
  | .leave | .tick | .drive .. => True

/-- Putting a value out asks for no more than that the output is within reach. -/
theorem allows_emit {slot : SlotId} (h : r.delivers (.output slot)) (value : Value) :
    r.Allows (.carryOut slot (.emit value)) := ⟨h, fun _ _ heffect => by cases heffect⟩

/-- Whatever a delivery within reach leads to at once is within reach again. -/
structure Carries (r : Reach) (s : Engine π κ) : Prop where
  entered : ∀ {slot node}, r.delivers (.input slot) → s.arena.get? slot = some node →
    r.Covers slot node.kind
  relayed : ∀ {slot node}, r.delivers (.output slot) → s.arena.get? slot = some node →
    ∀ listener ∈ node.outputs, r.delivers listener

/-- In an engine that is closed, deliveries stay within reach. -/
theorem Closed.carries (h : r.Closed s) : r.Carries s := ⟨h.entered, h.relayed⟩

/-- What a job leads to by propagation is within reach again, without a look at tasks. -/
theorem Allows.of_spawns (h : r.Allows job) (hs : r.Carries s) (hspawns : job.Spawns s j) :
    r.Allows j := by
  cases hspawns with
  | producer hget hkind hp =>
    have hcovers := hs.entered h hget
    rw [hkind] at hcovers
    exact hcovers _ hp
  | route => exact h
  | request effect hget hkind =>
    have hcovers := hs.entered h hget
    rw [hkind] at hcovers
    exact ⟨hcovers.1, fun _ value _ => hcovers.2 value⟩
  | answer holds hget hkind =>
    have hcovers := hs.entered h hget
    rw [hkind] at hcovers
    exact allows_emit hcovers _
  | positive hget hkind =>
    have hcovers := hs.entered h hget
    rw [hkind] at hcovers
    exact hcovers.2.1
  | negative hget hkind =>
    have hcovers := hs.entered h hget
    rw [hkind] at hcovers
    exact hcovers.2.2 _ rfl
  | listener hget hl => exact hs.relayed h hget _ hl
  | input => exact h
  | output => exact h
  | emit => exact h.1
  | handOutput => exact allows_emit h _
  | hand => exact h
  | kindle => exact allows_emit h _

/-- The jobs of a task that may be run are within reach. -/
theorem Runs.allows {task : Task} (h : r.Runs task) : ∀ job ∈ task.jobs, r.Allows job := by
  cases task with
  | deliver channel listeners value =>
    intro job hjob
    obtain ⟨listener, hl, rfl⟩ := List.mem_map.1 hjob
    exact h listener hl
  | emit slot value => exact List.forall_mem_singleton.2 (allows_emit h value)

/-- What a job leads to is within reach again. -/
theorem Allows.of_begins {jobs : List Job} (h : r.Allows job) (hdrives : r.Drives) (hs : r.Closed s)
    (hbegins : job.Begins s jobs s') : ∀ j ∈ jobs, r.Allows j := by
  cases hbegins with
  | entered => exact List.forall_mem_cons.2 ⟨h, List.forall_mem_singleton.2 trivial⟩
  | propagated hjob hdeeds hstill hjobs => exact fun j hj => h.of_spawns hs.carries (hjobs j hj)
  | batched task tasks =>
    obtain ⟨htask, htasks⟩ := List.forall_mem_cons.1 h
    exact List.forall_mem_append.2
      ⟨(hdrives task htask).allows, List.forall_mem_singleton.2 htasks⟩
  | ticked =>
    refine List.forall_mem_singleton.2 fun task htask => ?_
    rcases List.mem_append.1 (Array.toList_appendList ▸ htask) with htask | htask
    · exact hs.queued task (Array.mem_toList_iff.1 htask)
    · obtain ⟨timer, htimer, rfl⟩ := List.mem_map.1 htask
      exact hs.pending timer ((List.takeWhile_sublist _).mem htimer)
  | driven => exact List.forall_mem_cons.2 ⟨trivial, List.forall_mem_singleton.2 trivial⟩
  | _ => exact List.forall_mem_nil _

/-- What leaves the wiring, the queue and the clock as they are keeps closed what is. -/
theorem Closed.of_still (h : r.Closed s) (hstill : s.Still s') : r.Closed s' :=
  h.of_sameWiring hstill.wiring (hstill.queue ▸ h.queued) (hstill.clock ▸ h.pending)

variable [Process π]

/-- Moving the time keeps closed what is. -/
theorem Closed.of_makeRunnable {horizon : Engine.Horizon} {runnable : Bool} (h : r.Closed s)
    (hrunnable : Engine.makeRunnable horizon s = .ok runnable s') : r.Closed s' := by
  rcases Engine.makeRunnable_engine hrunnable with rfl | ⟨time, rfl⟩
  · exact h
  · exact h.of_step (.advanced time)

/-- A job keeps closed what is. -/
theorem Closed.of_begins {jobs : List Job} (hs : r.Closed s) (h : r.Allows job)
    (hbegins : job.Begins s jobs s') : r.Closed s' := by
  cases hbegins with
  | entered => exact hs.of_step (.focused _)
  | left => exact hs.of_step (.focused _)
  | propagated hjob hdeeds hstill => exact hs.of_still hstill
  | sent hget hstill =>
    exact (hs.of_still hstill).of_step (.sent _ h (hstill.wiring.channels ▸ hget))
  | scheduled hclock => exact hs.of_step (.scheduled (h.2 _ _ rfl) hclock)
  | ticked => exact (hs.of_step .moved).of_step .taken
  | driven hrunnable => exact hs.of_makeRunnable hrunnable
  | @rested horizon budget hrunnable =>
    cases horizon with
    | upTo time => exact hs.of_step (.advanced time)
    | _ => exact hs
  | _ => exact hs

/-- A job that fails keeps closed what is. -/
theorem Closed.of_fails {stop : Stop} (hs : r.Closed s) (hfails : job.Fails s stop s') :
    r.Closed s' := by
  cases hfails with
  | tooDeep => exact hs
  | propagated hjob hdeeds hstill => exact hs.of_still hstill
  | exhausted hrunnable => exact hs.of_makeRunnable hrunnable

/-- Jobs that are given up put back no task but those of their batches. -/
theorem Closed.unwind {todo : List Job} (hs : r.Closed s) (h : ∀ job ∈ todo, r.Allows job) :
    r.Closed (unwind todo s) := by
  induction todo generalizing s with
  | nil => exact hs
  | cons job rest ih =>
    obtain ⟨hjob, hrest⟩ := List.forall_mem_cons.1 h
    refine ih ?_ hrest
    cases job with
    | leave => exact hs.of_step (.focused _)
    | batch tasks => exact hs.of_step (.returned hjob)
    | _ => exact hs

end Reach

/-! ## Jobs in order -/

section

variable {π κ : Type} {rk : Ranking} {s s' : Engine π κ} {active : List SlotId} {job j : Job}
  {jobs rest : List Job}

/-- Whether a job is of a higher rank than an input in progress. Nothing but propagation is ever to
be done within an input. -/
def Job.Above (rk : Ranking) (slot : SlotId) : Job → Prop
  | .enter other _ => rk.input slot < rk.input other
  | .handle other _ | .route other _ => rk.input slot ≤ rk.input other
  | .relay _ other _ | .carryOut other _ => rk.input slot < rk.output other
  | .deliver _ listener _ => rk.Precedes (rk.input slot) listener
  | _ => False

/-- The jobs still to be done are of higher ranks than the inputs they are to be done within, and
each of these inputs ends with a job. -/
inductive Orderly (rk : Ranking) : List SlotId → List Job → Prop
  | rest : Orderly rk [] []
  | leave {slot : SlotId} {active : List SlotId} {todo : List Job} (h : Orderly rk active todo)
    (habove : ∀ outer ∈ active, rk.input outer < rk.input slot) :
    Orderly rk (slot :: active) (.leave :: todo)
  | job {job : Job} {active : List SlotId} {todo : List Job} (h : Orderly rk active todo)
    (habove : ∀ outer ∈ active, job.Above rk outer) : Orderly rk active (job :: todo)

/-- A value that is passed on at once ascends. -/
theorem Job.Above.of_spawns (hrk : rk.Ascends s) {outer : SlotId} (h : job.Above rk outer)
    (hspawns : job.Spawns s j) : j.Above rk outer := by
  cases hspawns with
  | producer hget hkind hp => exact h.trans_lt (hrk.enters hget (by rw [hkind]; exact hp))
  | route => exact h
  | request effect hget hkind => exact h.trans_lt (hrk.emits hget)
  | answer holds hget hkind => exact h.trans_lt (hrk.emits hget)
  | positive hget hkind => exact h.trans_lt (hrk.enters hget (by rw [hkind]; exact .inl rfl))
  | negative hget hkind => exact h.trans_lt (hrk.enters hget (by rw [hkind]; exact .inr rfl))
  | listener hget hl => exact (hrk.feeds hget _ hl).of_lt h
  | input => exact h
  | output => exact h
  | emit => exact h
  | _ => exact h.elim

/-- To leave an input is no propagation. -/
theorem Job.Propagates.ne_leave (h : job.Propagates) : job ≠ .leave := by
  rintro rfl
  exact h

namespace Orderly

/-- The first job is above all inputs in progress, unless it leaves one. -/
theorem of_cons (h : Orderly rk active (job :: rest)) (hjob : job ≠ .leave) :
    Orderly rk active rest ∧ ∀ outer ∈ active, job.Above rk outer := by
  cases h with
  | leave => exact absurd rfl hjob
  | job h habove => exact ⟨h, habove⟩

/-- To leave an input is to leave the innermost one. -/
theorem of_leave (h : Orderly rk active (.leave :: rest)) : Orderly rk active.tail rest := by
  cases h with
  | leave h habove => exact h
  | job h habove =>
    cases active with
    | nil => exact h
    | cons slot active => exact (habove slot (List.mem_cons_self ..)).elim

/-- Jobs that are above all inputs in progress may be done first. -/
theorem append (h : Orderly rk active rest) (hjobs : ∀ j ∈ jobs, ∀ outer ∈ active, j.Above rk outer) :
    Orderly rk active (jobs ++ rest) := by
  induction jobs with
  | nil => exact h
  | cons j jobs ih =>
    obtain ⟨hj, hjobs⟩ := List.forall_mem_cons.1 hjobs
    exact .job (ih hjobs) hj

/-- Outside of inputs any jobs are in order. -/
theorem of_outside (h : Orderly rk active (job :: rest)) (hleave : job ≠ .leave)
    (hjob : ∀ outer, ¬job.Above rk outer) (jobs : List Job) :
    Orderly rk active (jobs ++ rest) := by
  obtain ⟨hrest, habove⟩ := h.of_cons hleave
  exact hrest.append fun _ _ outer houter => (hjob outer (habove outer houter)).elim

/-- An inner input is of a higher rank than the outer ones. -/
theorem sorted {todo : List Job} (h : Orderly rk active todo) :
    active.Pairwise fun inner outer => rk.input outer < rk.input inner := by
  induction h with
  | rest => exact .nil
  | leave _ habove ih => exact .cons habove ih
  | job _ _ ih => exact ih

/-- **No input is in progress twice.** -/
theorem nodup {todo : List Job} (h : Orderly rk active todo) : active.Nodup :=
  h.sorted.imp fun hlt heq => absurd (congrArg rk.input heq) hlt.ne'

/-- When jobs are given up, every input in progress is left. -/
theorem unwind {todo : List Job} (h : Orderly rk active todo) (hactive : s.active = active) :
    (Moment.unwind todo s).active = [] := by
  induction h generalizing s with
  | rest => exact hactive
  | leave _ _ ih => exact ih (congrArg List.tail hactive)
  | @job job active todo _ habove ih =>
    refine ih (s := job.giveUp s) ?_
    -- Only `leave` ends an input, and as a job of its own it stands where none is in progress.
    cases job with
    | leave =>
      cases active with
      | nil => exact congrArg List.tail hactive
      | cons slot active => exact (habove slot (List.mem_cons_self ..)).elim
    | _ => exact hactive

/-- A job leaves the jobs still to be done in order. -/
theorem of_begins (hrk : rk.Ascends s) (h : Orderly rk s.active (job :: rest))
    (hbegins : job.Begins s jobs s') : Orderly rk s'.active (jobs ++ rest) := by
  cases hbegins with
  | @entered slot value =>
    obtain ⟨hrest, habove⟩ := h.of_cons fun h => by cases h
    refine .job (.leave hrest habove) (List.forall_mem_cons.2 ⟨le_refl _, fun outer houter => ?_⟩)
    exact (habove outer houter).le
  | left => exact h.of_leave
  | propagated hjob hdeeds hstill hjobs =>
    obtain ⟨hrest, habove⟩ := h.of_cons hjob.ne_leave
    rw [hstill.active]
    exact hrest.append fun j hj outer houter => (habove outer houter).of_spawns hrk (hjobs j hj)
  | sent hget hstill =>
    rw [← hstill.active] at h
    exact (h.of_cons fun h => by cases h).1
  | scheduled => exact (h.of_cons fun h => by cases h).1
  | driven hrunnable =>
    have hactive : s'.active = s.active := by
      rcases Engine.makeRunnable_engine hrunnable with rfl | ⟨time, rfl⟩ <;> rfl
    rw [hactive]
    exact h.of_outside (fun h => by cases h) (fun _ h => h) _
  | _ => exact h.of_outside (fun h => by cases h) (fun _ h => h) _

/-- A job that fails leaves the jobs behind it in order. -/
theorem of_fails {stop : Stop} (h : Orderly rk s.active (job :: rest)) (hfails : job.Fails s stop s') :
    Orderly rk s'.active rest := by
  cases hfails with
  | tooDeep => exact (h.of_cons fun h => by cases h).1
  | propagated hjob hdeeds hstill =>
    rw [hstill.active]
    exact (h.of_cons hjob.ne_leave).1
  | exhausted hrunnable =>
    have hactive : s'.active = s.active := by
      rcases Engine.makeRunnable_engine hrunnable with rfl | ⟨time, rfl⟩ <;> rfl
    rw [hactive]
    exact (h.of_cons fun h => by cases h).1

end Orderly

end

/-! ## What is live -/

namespace Engine

variable {π κ : Type}

/-- The listener names no node that is missing. -/
def LiveTarget (s : Engine π κ) : Listener → Prop
  | .input slot | .output slot | .state slot => s.Live slot
  | _ => True

/-- What names no node that is missing is within reach. -/
def living (s : Engine π κ) : Reach where
  delivers := s.LiveTarget
  asks _ := True
  defers
    | .deliver _ listeners _ => ∀ listener ∈ listeners, s.LiveTarget listener
    | .emit slot _ => s.Live slot

/-- A task that names no missing node delivers to none. -/
theorem living_drives (s : Engine π κ) : s.living.Drives := by
  intro task htask
  cases task <;> exact htask

/-- A sound listener names no missing node. -/
theorem SoundListener.liveTarget {s : Engine π κ} {listener : Listener} (h : s.SoundListener listener) :
    s.LiveTarget listener := by
  cases listener with
  | input slot => exact h
  | output slot => exact Names.mono h fun _ _ => trivial
  | state slot => exact Names.mono h fun _ _ => trivial
  | _ => trivial

/-- A sound task names no missing node. -/
theorem SoundTask.defers {s : Engine π κ} {task : Task} (h : s.SoundTask task) :
    s.living.defers task := by
  cases task with
  | deliver channel listeners value => exact fun listener hl => (h.2 listener hl).liveTarget
  | emit slot value => exact Names.mono h fun _ _ => trivial

/-- In an engine whose references are sound, nothing leads to a missing node. -/
theorem WellReferenced.closed_living {s : Engine π κ} (h : s.WellReferenced) : s.living.Closed s where
  entered {slot node} _ hget := by
    have hkind := h.kinds hget
    cases hk : node.kind with
    | composite producers =>
      rw [hk] at hkind
      exact hkind
    | conditional conditions positive negative? =>
      rw [hk] at hkind
      exact ⟨fun _ _ => trivial, hkind.2⟩
    | process kind leaf => exact ⟨⟨node, hget, trivial⟩, fun _ => ⟨node, hget, trivial⟩⟩
    | condition kind leaf => exact ⟨node, hget, trivial⟩
    | _ => trivial
  relayed _ hget listener hl := (h.outputs hget listener hl).liveTarget
  heard _ hget _ listener hl := (h.heard hget listener hl).liveTarget
  queued task htask := (h.queued task htask).defers
  pending timer htimer := (h.pending timer htimer).defers

end Engine

/-! ## Moments of a built graph -/

section

variable {π κ : Type}

/-- Ranks depend on the wiring alone. -/
theorem Ranking.Ascends.of_sameWiring {rk : Ranking} {s s' : Engine π κ} (h : rk.Ascends s)
    (hsame : s.SameWiring s') : rk.Ascends s' where
  enters hget henters := by
    obtain ⟨old, hold, hwiring⟩ := hsame.get?_eq_some hget
    refine h.enters hold (NodeKind.enters_of_wiring (congrArg Prod.fst hwiring) henters)
  emits hget := by
    obtain ⟨old, hold, -⟩ := hsame.get?_eq_some hget
    exact h.emits hold
  feeds hget listener hl := by
    obtain ⟨old, hold, hwiring⟩ := hsame.get?_eq_some hget
    have houtputs : old.outputs = _ := congrArg Prod.snd hwiring
    exact h.feeds hold listener (houtputs ▸ hl)

/-- The inputs in progress at a moment are nested, in a graph that was wired as the first engine. -/
structure Moment.Nested (rk : Ranking) (s₀ : Engine π κ) (m : Moment π κ) : Prop where
  ascends : rk.Ascends m.engine
  orderly : Orderly rk m.engine.active m.todo
  closed : s₀.living.Closed m.engine
  allows : ∀ job ∈ m.todo, s₀.living.Allows job
  live : ∀ slot ∈ m.engine.active, s₀.Live slot
  config : m.engine.config = s₀.config

namespace Moment.Nested

variable {rk : Ranking} {s₀ : Engine π κ} {m m' : Moment π κ}

/-- A job that begins ends an input, or begins one that is within reach, or neither. -/
theorem live_of_begins {s s' : Engine π κ} {job : Job} {jobs : List Job} (h : job.Begins s jobs s')
    (hjob : s₀.living.Allows job) (hlive : ∀ slot ∈ s.active, s₀.Live slot) :
    ∀ slot ∈ s'.active, s₀.Live slot := by
  cases h with
  | entered => exact List.forall_mem_cons.2 ⟨hjob, hlive⟩
  | left => exact fun slot hslot => hlive slot (List.mem_of_mem_tail hslot)
  | propagated _ _ hstill => exact hstill.active ▸ hlive
  | sent _ hstill => exact hstill.active ▸ hlive
  | driven hrunnable => exact (Engine.steady_makeRunnable hrunnable).active ▸ hlive
  | _ => exact hlive

/-- Nothing is in progress when nothing is left to do. -/
theorem active_eq_nil (h : Nested rk s₀ m) (hrest : m.todo = []) : m.engine.active = [] := by
  have horderly := h.orderly
  rw [hrest] at horderly
  generalize m.engine.active = active at horderly
  cases horderly
  rfl

/-- The inputs at rest are nested, whatever ended before. -/
theorem at_rest (h : Nested rk s₀ m) (hrest : m.todo = []) (stop? : Option Stop) :
    Nested rk s₀ ⟨m.engine, [], stop?⟩ :=
  ⟨h.ascends, hrest ▸ h.orderly, h.closed, List.forall_mem_nil _, h.live, h.config⟩

/-- Any job within reach may be begun when nothing is left to do. -/
theorem with_job (h : Nested rk s₀ m) (hrest : m.todo = []) {job : Job}
    (hjob : s₀.living.Allows job) : Nested rk s₀ ⟨m.engine, [job], none⟩ := by
  refine ⟨h.ascends, .job (h.at_rest hrest none).orderly ?_, h.closed,
    List.forall_mem_singleton.2 hjob, h.live, h.config⟩
  rw [h.active_eq_nil hrest]
  exact List.forall_mem_nil _

variable [Process π] [Condition κ]

/-- Every step keeps inputs nested. -/
theorem next (h : Nested rk s₀ m) (hnext : m.next? = some m') : Nested rk s₀ m' := by
  have hwiring := sameWiring_of_next? hnext
  have hascends := h.ascends.of_sameWiring hwiring
  have hconfig := hwiring.config.trans h.config
  obtain ⟨job, rest, htodo, hcases⟩ := next?_cases hnext
  have horderly := h.orderly
  have hallows := h.allows
  rw [htodo] at horderly hallows
  obtain ⟨hjob, hrest⟩ := List.forall_mem_cons.1 hallows
  -- A job that fails takes the rest down with it, and every input in progress is left.
  rcases hcases with ⟨jobs, s', hbegins, rfl⟩ | ⟨stop, s', hfails, rfl⟩
  · exact ⟨hascends, horderly.of_begins h.ascends hbegins, h.closed.of_begins hjob hbegins,
      List.forall_mem_append.2 ⟨hjob.of_begins s₀.living_drives h.closed hbegins, hrest⟩,
      live_of_begins hbegins hjob h.live, hconfig⟩
  · have hactive := (horderly.of_fails hfails).unwind rfl
    refine ⟨hascends, ?_, (h.closed.of_fails hfails).unwind hrest, List.forall_mem_nil _, ?_, hconfig⟩
    · exact hactive ▸ .rest
    · rw [hactive]
      exact List.forall_mem_nil _

/-- A graph that is allowed as many inputs as there are nodes never fails for their depth. -/
theorem stop_ne_depthExceeded (h : Nested rk s₀ m) (hnext : m.next? = some m')
    (hcount : ∀ slots : List SlotId, slots.Nodup → (∀ slot ∈ slots, s₀.Live slot) →
      slots.length ≤ s₀.config.maxDepth) (depth : Nat) :
    m'.stop? ≠ some (.failed (.depthExceeded depth)) := by
  obtain ⟨job, rest, htodo, ⟨jobs, s', -, rfl⟩ | ⟨stop, s', hfails, rfl⟩⟩ := next?_cases hnext
  · exact fun hstop => by cases hstop
  · intro hstop
    cases hstop
    cases hfails with
    | propagated _ _ _ hother => exact hother.ne_depthExceeded depth rfl
    | @tooDeep slot value hallowance =>
      have horderly := h.orderly
      have hallows := h.allows
      rw [htodo] at horderly hallows
      -- The node would be in progress next to all that are, which is one more than allowed.
      obtain ⟨hrest, habove⟩ := horderly.of_cons fun h => by cases h
      have hcount := hcount (slot :: m.engine.active) (Orderly.leave hrest habove).nodup
        (List.forall_mem_cons.2 ⟨(List.forall_mem_cons.1 hallows).1, h.live⟩)
      rw [Engine.allowance, Engine.depth, h.config] at hallowance
      rw [List.length_cons] at hcount
      omega

end Moment.Nested

/-- No operation by itself makes a value descend: an output that is added is a sink. -/
theorem Ranking.Ascends.of_tapped {rk : Ranking} {s : Engine π κ} (h : rk.Ascends s) {slot : SlotId}
    {node : Node π κ} (hget : s.arena.get? slot = some node) :
    rk.Ascends { s with
      arena := s.arena.set slot { node with outputs := node.outputs ++ [.sink] } } where
  enters hnew henters := by
    obtain ⟨old, hold, hkind, -⟩ := Graph.get?_tapped hget hnew
    exact h.enters hold (hkind ▸ henters)
  emits hnew := by
    obtain ⟨old, hold, -⟩ := Graph.get?_tapped hget hnew
    exact h.emits hold
  feeds hnew listener hl := by
    obtain ⟨old, hold, -, -, houtputs⟩ := Graph.get?_tapped hget hnew
    rcases houtputs listener hl with hl | rfl
    · exact h.feeds hold listener hl
    · trivial

variable [Process π] [Condition κ] {rk : Ranking} {s₀ : Engine π κ} {m start : Moment π κ}
  {root : SlotId} {ops : List Operation} {ds : List Deed}

omit [Condition κ] in
/-- Every operation begins with no input in progress. -/
theorem Moment.Nested.begin (h : Nested rk s₀ m) (hrest : m.todo = []) (hroot : s₀.Live root)
    (op : Operation) : Nested rk s₀ (Graph.begin root op m.engine) := by
  have hempty := h.at_rest hrest
  cases op with
  | push value => exact h.with_job hrest hroot
  | advanceBy span =>
    rw [Graph.begin, advancing]
    cases Duration.add? m.engine.clock.now span with
    | none => exact hempty _
    | some target => exact h.with_job hrest trivial
  | tap slot =>
    rw [Graph.begin, ended, Graph.tap, Graph.addListener_eq]
    cases hget : m.engine.arena.get? slot with
    | none => exact hempty none
    | some node =>
      have hmove : Graph.Move s₀.living m.engine (.tap slot) _ := .tapped hget
      exact ⟨h.ascends.of_tapped hget, (hempty none).orderly, hmove.closed h.closed trivial,
        List.forall_mem_nil _, h.live, h.config⟩
  | takeOutputs =>
    have hmove : Graph.Move s₀.living m.engine .takeOutputs _ := .tookOutputs
    exact ⟨h.ascends.of_sameWiring ⟨rfl, rfl, fun _ => rfl, rfl⟩, (hempty none).orderly,
      hmove.closed h.closed trivial, List.forall_mem_nil _, h.live, h.config⟩
  | takeRendered =>
    have hmove : Graph.Move s₀.living m.engine .takeRendered _ := .tookRendered
    exact ⟨h.ascends.of_sameWiring ⟨rfl, rfl, fun _ => rfl, rfl⟩, (hempty none).orderly,
      hmove.closed h.closed trivial, List.forall_mem_nil _, h.live, h.config⟩
  | _ => exact h.with_job hrest trivial

/-- Inputs are nested at every moment of a story. -/
theorem Moment.Nested.of_story (hstart : Nested rk s₀ start) (hroot : s₀.Live root)
    (h : Story (Graph.begin root) start ops ds m) : Nested rk s₀ m :=
  h.invariant hstart (fun _ _ h hnext => h.next hnext) fun op _ h hrest => h.begin hrest hroot op

omit [Process π] [Condition κ] in
/-- No operation begins with a failure but that of a time that is not representable. -/
theorem Graph.begin_stop? (root : SlotId) (op : Operation) (s : Engine π κ) :
    (begin root op s).stop? = none ∨ (begin root op s).stop? = some .timeOverflow := by
  cases op with
  | advanceBy span =>
    rw [begin, advancing]
    cases Duration.add? s.clock.now span with
    | none => exact .inr rfl
    | some target => exact .inl rfl
  | tap slot =>
    rw [begin, ended, tap, addListener_eq]
    cases s.arena.get? slot <;> exact .inl rfl
  | _ => exact .inl rfl

/-- A graph that is allowed as many inputs as there are nodes is never found to be too deep. -/
theorem Moment.Nested.stop_of_story (hstart : Nested rk s₀ start) (hstop : start.stop? = none)
    (hroot : s₀.Live root)
    (hcount : ∀ slots : List SlotId, slots.Nodup → (∀ slot ∈ slots, s₀.Live slot) →
      slots.length ≤ s₀.config.maxDepth)
    (h : Story (Graph.begin root) start ops ds m) (depth : Nat) :
    m.stop? ≠ some (.failed (.depthExceeded depth)) := by
  cases h with
  | start =>
    rw [hstop]
    exact fun h => by cases h
  | next h hnext => exact (of_story hstart hroot h).stop_ne_depthExceeded hnext hcount depth
  | @begin ops ds m op h hrest =>
    rcases Graph.begin_stop? root op m.engine with hstop | hstop <;> rw [hstop] <;>
      exact fun h => by cases h

end

/-! ## Built graphs -/

namespace Graph

variable {π κ : Type} [Process π] [Condition κ] {registry : Registry π κ} {spec : SpecNode}

namespace Assembled

variable {root : Plan} {declared : Plan.Declared} {wired : Plan.Wired π κ}
  (h : Assembled registry spec root declared wired) (config : Config)

include h

omit [Process π] [Condition κ] in
/-- There are no more live slots than nodes. -/
theorem length_le_size {slots : List SlotId} (hnodup : slots.Nodup)
    (hlive : ∀ slot ∈ slots, (engineOf config wired).Live slot) : slots.length ≤ wired.arena.size := by
  have hsubset : slots ⊆ (List.range root.size).map slotAt := fun slot hslot => by
    obtain ⟨node, hget, -⟩ := hlive slot hslot
    obtain ⟨i, hi, rfl⟩ := h.dense.get?_isSome_iff.1 (Option.isSome_iff_exists.2 ⟨node, hget⟩)
    exact List.mem_map.2 ⟨i, List.mem_range.2 hi, rfl⟩
  have hsize : wired.arena.size = root.size := h.dense.live_eq
  have hlength := (List.subperm_of_subset hnodup hsubset).length_le
  rwa [List.length_map, List.length_range, ← hsize] at hlength

omit [Process π] [Condition κ] in
/-- There are as many nodes as the specification has. -/
theorem size_eq : wired.arena.size = spec.visited.length := by
  have hsize : wired.arena.size = root.size := h.dense.live_eq
  rw [hsize, h.reads.size_eq]

omit [Process π] [Condition κ] in
/-- Activation begins with no input in progress, and constants to send out. -/
theorem nested_activation : Nested root.ranking (engineOf config wired) (activation config wired) := by
  have horderly : Orderly root.ranking [] (wired.constants.map Job.kindle ++ []) :=
    Orderly.rest.append fun _ _ => List.forall_mem_nil _
  rw [List.append_nil] at horderly
  refine ⟨h.ascends config, horderly, (h.wellReferenced config).closed_living, fun job hjob => ?_,
    List.forall_mem_nil _, rfl⟩
  obtain ⟨slot, hslot, rfl⟩ := List.mem_map.1 hjob
  rw [h.constants_eq] at hslot
  obtain ⟨site, hsite, rfl, -⟩ := mem_constantSlots.1 hslot
  exact h.live config hsite

end Assembled

/-- **Propagation is never re-entrant.** From the activation of a built graph on, and in every
history, the inputs that are in progress at a moment are those of distinct nodes, so they nest no
deeper than there are nodes; and if they are allowed to nest as deep, neither the build nor any
operation fails for their depth. The moments are those of the graph: each history is told by a
story. -/
theorem never_reentrant {config : Config} {root : SlotId} {scope : Scope} {wired : Plan.Wired π κ}
    (hassemble : assemble registry spec = .ok (root, scope, wired)) :
    (∀ ops ds m, Story (begin root) (activation config wired) ops ds m →
        m.engine.active.Nodup ∧ m.engine.active.length ≤ wired.arena.size) ∧
      (∀ g, build registry config spec = .ok g → ∀ ops, ∃ ds m,
        Story (begin root) (activation config wired) ops ds m ∧ m.todo = [] ∧
          m.engine = (g.operateAll ops).2.engine) ∧
      (wired.arena.size ≤ config.maxDepth → ∀ depth,
        (∀ log, build registry config spec ≠ .error (.failed ⟨.run (.depthExceeded depth), log⟩)) ∧
        ∀ g, build registry config spec = .ok g → ∀ ops,
          .error (.failed (.depthExceeded depth)) ∉ (g.operateAll ops).1) := by
  obtain ⟨plan, declared, h, rfl, rfl⟩ := assembled_of_assemble hassemble
  have hstart := h.nested_activation config
  have hroot : (engineOf config wired).Live (slotAt 0) :=
    h.live config (Plan.mem_sites_self 0 [.sink] plan)
  refine ⟨fun ops ds m hstory => ?_, fun g hbuild ops => (story_of_build hassemble hbuild ops).1,
    fun hsize depth => ?_⟩
  · have hnested := hstart.of_story hroot hstory
    exact ⟨hnested.orderly.nodup, h.length_le_size config hnested.orderly.nodup hnested.live⟩
  · have hnever : ∀ ops ds m, Story (begin (slotAt 0)) (activation config wired) ops ds m →
        m.stop? ≠ some (.failed (.depthExceeded depth)) := fun ops ds m hstory =>
      hstart.stop_of_story rfl hroot
        (fun slots hnodup hlive => (h.length_le_size config hnodup hlive).trans hsize) hstory depth
    refine ⟨fun log hbuild => ?_, fun g hbuild ops hfailed => ?_⟩
    · obtain ⟨ds, m, hstory, hstop⟩ := story_of_build_error hassemble hbuild
      exact hnever [] ds m hstory hstop
    · obtain ⟨ops', ds, m, hstory, hstop⟩ := (story_of_build hassemble hbuild ops).2 _ hfailed
      exact hnever ops' ds m hstory hstop

/-- A component that feeds itself never enters a node twice, and never fails for depth. -/
theorem never_reentrant_in_feedback :
    ∃ (g : Graph CatalogueProcess CatalogueCondition)
        (wired : Plan.Wired CatalogueProcess CatalogueCondition),
      build Registry.catalogue {} SpecNode.feedback = .ok g ∧
      (∀ ds m, Story (begin g.root) (activation {} wired) [.push .unit, .tick] ds m →
        m.engine.active.Nodup ∧ m.engine.active.length ≤ wired.arena.size) ∧
      .error (.failed (.depthExceeded 256)) ∉ (g.operateAll [.push .unit, .tick]).1 := by
  have hok : (build Registry.catalogue {} SpecNode.feedback).isOk = true := by cbv
  have hlength : SpecNode.feedback.visited.length ≤ ({} : Config).maxDepth := by cbv
  cases h : build Registry.catalogue {} SpecNode.feedback with
  | error stop =>
    rw [h] at hok
    cases hok
  | ok g =>
    obtain ⟨wired, hassemble, -⟩ := build_eq_ok_iff.1 h
    obtain ⟨hdistinct, -, hdeep⟩ := never_reentrant hassemble
    obtain ⟨plan, declared, hassembled, -⟩ := assembled_of_assemble hassemble
    have hsize : wired.arena.size ≤ ({} : Config).maxDepth := hassembled.size_eq ▸ hlength
    exact ⟨g, wired, rfl, hdistinct _, (hdeep hsize 256).2 g h _⟩

end Graph

end Dataflow
