import Dataflow.Proofs.Flow
import Dataflow.Proofs.Limits
import Dataflow.Proofs.WallClock
import Mathlib.Data.Multiset.DershowitzManna

/-!
# What keeps a graph busy

A graph that is settled can be busy for as long as its budget lasts, if broadcasts or delayed values
feed back. If values flow in no circle, it comes to rest.

A task can put off any number of tasks, now and for any later time, so no number of tasks goes down.
But all of them are of lower ranks than the task. So each tick takes the ranks of some tasks out of
those of all tasks that are queued or timed, and puts in any number of lower ones (`load_tick`). In
the order of multisets in which some members may be traded for any number of smaller ones, the ranks
go down, and they cannot do so forever. How many ticks it takes depends on what leaves do, but not on
the budget, which no tick looks at (`Dataflow.Proofs.Limits`).
-/

namespace Dataflow

open Moment

/-! ## The load of an engine -/

namespace Engine

variable {π κ : Type} {measure : Task → ℕ} {s s' : Engine π κ}

/-- The measures of the tasks that are queued or wait for a timer. -/
def load (measure : Task → ℕ) (s : Engine π κ) : Multiset ℕ :=
  (s.queue.toList.map measure : Multiset ℕ) +
    (s.clock.pending.map fun timer => measure timer.task : List ℕ)

/-- The load is that of the queue and the clock. -/
theorem load_of_eq (hqueue : s'.queue = s.queue) (hclock : s'.clock = s.clock) :
    s'.load measure = s.load measure := by
  rw [load, load, hqueue, hclock]

/-- A task that is queued is loaded. -/
theorem load_push (task : Task) :
    load measure { s with queue := s.queue.push task } = s.load measure + {measure task} := by
  rw [load, load, Array.toList_push, List.map_append, ← Multiset.coe_add, add_right_comm]
  rfl

/-- A task that is timed is loaded. -/
theorem load_schedule {clock : Clock Task} {delay : Nat} {task : Task}
    (h : s.clock.schedule? delay task = some clock) :
    load measure { s with clock } = s.load measure + {measure task} := by
  obtain ⟨-, rfl⟩ := Clock.schedule?_eq_some_iff.1 h
  have hperm := (Clock.insert_perm ⟨s.clock.now + delay, s.clock.scheduled, task⟩
    s.clock.pending).map fun timer => measure timer.task
  rw [load, load, Multiset.coe_eq_coe.2 hperm, List.map_cons, ← Multiset.cons_coe,
    ← Multiset.singleton_add, add_comm {measure task}, add_assoc]

/-- What is not in the batch of a tick goes on waiting. -/
theorem load_taken (measure : Task → ℕ) (s : Engine π κ) :
    s.load measure = load measure { s with clock := s.clock.takeDue.2, queue := #[] } +
      ((s.queue ++ s.clock.takeDue.1).toList.map measure : List ℕ) := by
  have hpending : s.clock.pending = (s.clock.pending.takeWhile fun t => t.fireAt ≤ s.clock.now) ++
      s.clock.takeDue.2.pending := List.takeWhile_append_dropWhile.symm
  have hdue : s.clock.takeDue.1.map measure =
      (s.clock.pending.takeWhile fun t => t.fireAt ≤ s.clock.now).map fun t => measure t.task :=
    List.map_map
  rw [load, hpending, load, Array.toList_appendList, List.map_append, List.map_append, hdue,
    ← Multiset.coe_add, ← Multiset.coe_add]
  rw [List.map_nil, Multiset.coe_nil, zero_add, ← add_assoc, add_comm]

/-! ## What is put off -/

/-- The second engine has the load of the first one, and tasks that were put off since, whose measures
have the property. -/
def PutsOff (measure : Task → ℕ) (p : ℕ → Prop) (s s' : Engine π κ) : Prop :=
  ∃ new : Multiset ℕ, s'.load measure = s.load measure + new ∧ ∀ x ∈ new, p x

namespace PutsOff

variable {p q : ℕ → Prop}

/-- Where the load stays, nothing was put off. -/
theorem of_load_eq (h : s'.load measure = s.load measure) : PutsOff measure p s s' :=
  ⟨0, by rw [h, add_zero], fun x hx => absurd hx (Multiset.notMem_zero x)⟩

/-- Where one task was put off, its measure is all that is new. -/
theorem of_add {task : Task} (h : s'.load measure = s.load measure + {measure task})
    (hp : p (measure task)) : PutsOff measure p s s' :=
  ⟨_, h, fun _ hx => Multiset.mem_singleton.1 hx ▸ hp⟩

/-- What was put off twice is put off together. -/
theorem trans {s'' : Engine π κ} (h : PutsOff measure p s s') (h' : PutsOff measure p s' s'') :
    PutsOff measure p s s'' := by
  obtain ⟨new, hload, hnew⟩ := h
  obtain ⟨new', hload', hnew'⟩ := h'
  refine ⟨new + new', by rw [hload', hload, add_assoc], fun x hx => ?_⟩
  exact (Multiset.mem_add.1 hx).elim (hnew x) (hnew' x)

/-- What was put off has every property that follows. -/
theorem mono (h : PutsOff measure p s s') (hpq : ∀ x, p x → q x) : PutsOff measure q s s' := by
  obtain ⟨new, hload, hnew⟩ := h
  exact ⟨new, hload, fun x hx => hpq x (hnew x hx)⟩

end PutsOff

end Engine

open Engine Plan

/-- A call that is within reach leads to calls that are. -/
theorem Reach.Allows.of_call {π κ : Type} {r : Reach} {s s' : Engine π κ} {job : Job} {jobs : List Job}
    (h : r.Allows job) (hcall : job.IsCall) (hs : r.Carries s) (hbegins : job.Begins s jobs s') :
    ∀ j ∈ jobs, r.Allows j ∧ j.IsCall := by
  cases hbegins with
  | entered =>
    exact List.forall_mem_cons.2 ⟨⟨h, trivial⟩, List.forall_mem_singleton.2 ⟨trivial, trivial⟩⟩
  | propagated _ _ _ hjobs => exact fun j hj => ⟨h.of_spawns hs (hjobs j hj), (hjobs j hj).isCall⟩
  | batched | ticked | driven => exact hcall.elim
  | _ => exact List.forall_mem_nil _

/-- A call beneath a bound puts off nothing but a task beneath it. -/
theorem Job.Begins.putsOff {π κ : Type} {root : Plan} {channels : Channels} {rank : Vertex → ℕ}
    {bound : ℕ} {s s' : Engine π κ} {job : Job} {jobs : List Job}
    (hallows : (root.beneath channels rank bound).Allows job) (hcall : job.IsCall)
    (hbegins : job.Begins s jobs s') : s.PutsOff (Task.rank channels rank) (· < bound) s' := by
  cases hbegins with
  | propagated _ _ hstill => exact .of_load_eq (load_of_eq hstill.queue hstill.clock)
  | @sent _ id channel value s₁ _ hstill =>
    have hbelow : (Task.deliver id channel.listeners value).rank channels rank < bound := hallows
    refine .of_add ((load_push _).trans ?_) hbelow
    rw [load_of_eq hstill.queue hstill.clock]
  | scheduled hclock => exact .of_add (load_schedule hclock) (hallows.2 _ _ rfl)
  | entered | left => exact .of_load_eq rfl
  | _ => exact hcall.elim

/-- At a moment of running a task all that is left to do is beneath the bound, and so is all that was
put off since the first engine. -/
structure Moment.Lowers {π κ : Type} (registry : Registry π κ) (root : Plan) (channels : Channels)
    (rank : Vertex → ℕ) (bound : ℕ) (s₀ : Engine π κ) (m : Moment π κ) : Prop where
  placed : m.engine.Placed registry root channels
  allows : ∀ job ∈ m.todo, (root.beneath channels rank bound).Allows job ∧ job.IsCall
  putsOff : s₀.PutsOff (Task.rank channels rank) (· < bound) m.engine

/-- Giving up calls leaves all that was put off. -/
theorem Moment.load_unwind {π κ : Type} {measure : Task → ℕ} {todo : List Job}
    (hcalls : ∀ job ∈ todo, job.IsCall) (s : Engine π κ) :
    (unwind todo s).load measure = s.load measure := by
  have hshaped : Shaped (todo ++ []) := Shaped.append .nil hcalls
  rw [List.append_nil] at hshaped
  refine load_of_eq (Array.toList_inj.1 ?_) (clock_unwind todo s)
  rw [hshaped.queue_unwind, Shaped.tasks_of_calls hcalls, List.nil_append]

/-! ## Ticks of a graph whose values flow in no circle -/

section

variable {π κ : Type} {registry : Registry π κ} {spec : SpecNode} {root : Plan} {declared : Declared}
  {wired : Wired π κ} (h : Graph.Assembled registry spec root declared wired) {rank : Vertex → ℕ}
  (hrank : ∀ v w, root.Flows declared.scope v w → rank w < rank v) {bound : ℕ}
  {s s₀ s' : Engine π κ}

include h hrank

namespace Moment.Lowers

variable [Process π] [Condition κ] {m m' : Moment π κ}

/-- A step of a task that runs leaves what is to be done beneath the bound. -/
theorem next (hm : Lowers registry root wired.channels rank bound s₀ m) (hnext : m.next? = some m') :
    Lowers registry root wired.channels rank bound s₀ m' := by
  have hplaced := hm.placed.of_sameWiring (sameWiring_of_next? hnext)
  obtain ⟨job, rest, htodo, hcases⟩ := next?_cases hnext
  have hallows := hm.allows
  rw [htodo] at hallows
  obtain ⟨⟨hjob, hcall⟩, hrest⟩ := List.forall_mem_cons.1 hallows
  -- A call that fails puts nothing off, and the calls given up behind it take nothing back.
  rcases hcases with ⟨jobs, s', hbegins, rfl⟩ | ⟨stop, s', hfails, rfl⟩
  · have hjobs := hjob.of_call hcall (h.carries_beneath hrank hm.placed bound) hbegins
    exact ⟨hplaced, List.forall_mem_append.2 ⟨hjobs, hrest⟩,
      hm.putsOff.trans (hbegins.putsOff hjob hcall)⟩
  · refine ⟨hplaced, List.forall_mem_nil _, hm.putsOff.trans (.of_load_eq ?_)⟩
    rw [load_unwind fun j hj => (hrest j hj).2]
    cases hfails with
    | tooDeep => rfl
    | propagated _ _ hstill => exact load_of_eq hstill.queue hstill.clock
    | exhausted => exact hcall.elim

/-- However far a task has come, what is to be done is beneath the bound. -/
theorem comes (hm : Lowers registry root wired.channels rank bound s₀ m) (hcomes : Comes m m') :
    Lowers registry root wired.channels rank bound s₀ m' := by
  induction hcomes with
  | refl => exact hm
  | tail _ hnext ih => exact ih.next h hrank hnext

end Moment.Lowers

namespace Engine

variable [Process π] [Condition κ]

/-- A task that is run puts off tasks of lower ranks only. -/
theorem putsOff_runTask {task : Task} (hs : s.Placed registry root wired.channels)
    (htask : (root.descending wired.channels rank).defers task) (hrun : runTask task s = .ok () s') :
    s'.Placed registry root wired.channels ∧
      s.PutsOff (Task.rank wired.channels rank) (· < task.rank wired.channels rank) s' := by
  have hstart : Moment.Lowers registry root wired.channels rank (task.rank wired.channels rank) s
      ⟨s, task.jobs, none⟩ :=
    ⟨hs, fun job hjob => ⟨htask.allows job hjob, task.isCall_jobs job hjob⟩, .of_load_eq rfl⟩
  have hended := hstart.comes h hrank (unfolds_runTask task s).comes
  rw [ended, hrun] at hended
  exact ⟨hended.placed, hended.putsOff⟩

/-- Tasks that are run put off tasks of ranks lower than one of theirs. -/
theorem putsOff_runBatch {tasks : List Task} (hs : s.Placed registry root wired.channels)
    (htasks : ∀ task ∈ tasks, (root.descending wired.channels rank).defers task)
    (hrun : runBatch tasks s = .ok () s') :
    s.PutsOff (Task.rank wired.channels rank)
      (fun x => ∃ task ∈ tasks, x < task.rank wired.channels rank) s' := by
  induction tasks generalizing s with
  | nil =>
    cases hrun
    exact .of_load_eq rfl
  | cons task rest ih =>
    obtain ⟨htask, hrest⟩ := List.forall_mem_cons.1 htasks
    unfold runBatch at hrun
    split at hrun
    · rename_i s₁ hfirst
      obtain ⟨hs₁, hputsOff⟩ := putsOff_runTask h hrank hs htask hfirst
      -- What the first task put off is below that task, and what the rest put off below one of theirs.
      refine (hputsOff.mono fun x hx => ⟨task, List.mem_cons_self .., hx⟩).trans ?_
      refine (ih hs₁ hrest hrun).mono fun x hx => ?_
      obtain ⟨other, hother, hlt⟩ := hx
      exact ⟨other, List.mem_cons_of_mem _ hother, hlt⟩
    · cases hrun

/-- **Every tick lowers the load**, in the order of multisets: it takes some ranks out and puts in
any number of lower ones. -/
theorem load_tick (hs : s.Placed registry root wired.channels)
    (hclosed : (root.descending wired.channels rank).Closed s) (hready : s.isRunnable = true)
    {count : Nat} (htick : tick s = .ok count s') :
    (s'.load (Task.rank wired.channels rank)).IsDershowitzMannaLT
      (s.load (Task.rank wired.channels rank)) := by
  have hbatch : ∀ task ∈ (s.queue ++ s.clock.takeDue.1).toList,
      (root.descending wired.channels rank).defers task := by
    have hallows : (root.descending wired.channels rank).Allows .tick := trivial
    have hjobs := hallows.of_begins (root.drives_descending wired.channels rank) hclosed .ticked
    exact List.forall_mem_singleton.1 hjobs
  have htaken : Placed registry root wired.channels
      { s with clock := s.clock.takeDue.2, queue := #[] } :=
    hs.of_sameWiring ⟨rfl, rfl, fun _ => rfl, rfl⟩
  rw [tick_eq] at htick
  cases hrun : runBatch (s.queue ++ s.clock.takeDue.1).toList
      { s with clock := s.clock.takeDue.2, queue := #[] } with
  | error stop s₁ =>
    rw [bind_of_error hrun] at htick
    cases htick
  | ok _ s₁ =>
    rw [bind_of_ok hrun] at htick
    cases htick
    -- What is taken out is the batch, and each rank that comes in is below one of the batch.
    obtain ⟨new, hload, hnew⟩ := putsOff_runBatch h hrank htaken hbatch hrun
    refine ⟨_, new, _, ?_, hload, load_taken _ s, fun x hx => ?_⟩
    · intro hempty
      -- The order is strict, so something has to be taken out: a runnable engine has a batch.
      exact batch_ne_nil hready (List.map_eq_nil_iff.1 ((Multiset.coe_eq_zero _).1 hempty))
    · obtain ⟨task, htask, hlt⟩ := hnew x hx
      exact ⟨_, Multiset.mem_coe.2 (List.mem_map_of_mem htask), hlt⟩

end Engine

end

/-! ## Drives that end -/

/-- Whether a task of a sound graph can stop so: a leaf refuses an input, inputs nest too deep, or a
time is not representable. -/
def Stop.IsOfTask : Stop → Prop
  | .failed (.leaf ..) | .failed (.depthExceeded _) | .timeOverflow => True
  | _ => False

namespace Engine

variable {π κ : Type} [Process π] {registry : Registry π κ} {root : Plan} {channels : Channels}
  {rank : Vertex → ℕ} {s s' : Engine π κ} {α : Type}

/-- A graph whose values flow in no circle, in any state. -/
structure Descends (registry : Registry π κ) (root : Plan) (channels : Channels) (rank : Vertex → ℕ)
    (s : Engine π κ) : Prop where
  placed : s.Placed registry root channels
  closed : (root.descending channels rank).Closed s
  wellReferenced : s.WellReferenced
  grounds : ∃ outputRank, s.Grounds outputRank

namespace Descends

variable (hs : s.Descends registry root channels rank)

include hs

/-- Moving the time gives values no new way to flow. -/
theorem of_makeRunnable {horizon : Horizon} {runnable : Bool}
    (h : makeRunnable horizon s = .ok runnable s') : s'.Descends registry root channels rank := by
  have hsame := SameWiring.of_makeRunnable h
  have hsteps : Steps s.references s s' := by
    rcases makeRunnable_engine h with rfl | ⟨time, rfl⟩
    · exact .refl
    · exact .single (.advanced time)
  obtain ⟨outputRank, hgrounds⟩ := hs.grounds
  exact ⟨hs.placed.of_sameWiring hsame, hs.closed.of_makeRunnable h,
    hs.wellReferenced.of_steps hsteps, outputRank, hgrounds.of_sameWiring hsame⟩

variable [Condition κ]

/-- A tick gives values no new way to flow. -/
theorem of_tick {count : Nat} (h : tick s = .ok count s') :
    s'.Descends registry root channels rank ∧ s.SameWiring s' := by
  have hsteps : ∀ {r : Reach}, r.Drives → r.Closed s → Steps r s s' := fun hdrives hclosed => by
    have hleads := leads_tick hdrives hclosed
    rw [h] at hleads
    exact hleads.1
  have hreferences := hsteps s.references_drives hs.wellReferenced.closed
  have hsame := Steps.sameWiring hreferences
  obtain ⟨outputRank, hgrounds⟩ := hs.grounds
  exact ⟨⟨hs.placed.of_sameWiring hsame,
    hs.closed.of_steps (hsteps (root.drives_descending channels rank) hs.closed),
    hs.wellReferenced.of_steps hreferences, outputRank, hgrounds.of_sameWiring hsame⟩, hsame⟩

/-- A tick stops for what its tasks can stop for. -/
theorem stop_of_tick {stop : Stop} (h : tick s = .error stop s') : stop.IsOfTask := by
  have hcomes := (unfolds_tick s).comes
  rw [ended, h] at hcomes
  have hendless : stop ≠ .endless := by
    obtain ⟨outputRank, hgrounds⟩ := hs.grounds
    have hgrounded : Grounded outputRank ⟨s, [.tick], none⟩ :=
      ⟨hgrounds, List.forall_mem_singleton.2 trivial, fun hstop => by cases hstop⟩
    exact fun hstop => (hgrounded.comes hcomes).stop (congrArg some hstop)
  have hnotBool : ∀ kind value, stop ≠ .failed (.notBool kind value) := by
    rintro kind value rfl
    have hleads := leads_tick s.references_drives hs.wellReferenced.closed
    rw [h] at hleads
    exact references_not_halts_notBool kind value hleads.2.2
  cases stop with
  | timeOverflow => trivial
  | endless => exact absurd rfl hendless
  | failed e =>
    cases e with
    | notBool kind value => exact absurd rfl (hnotBool kind value)
    | tickBudgetExhausted limit => exact absurd rfl (tick_ne_exhausted h limit)
    | _ => trivial

end Descends

end Engine

section

variable {π κ : Type} [Process π] [Condition κ] {registry : Registry π κ} {spec : SpecNode}
  {root : Plan} {declared : Declared} {wired : Wired π κ}
  (h : Graph.Assembled registry spec root declared wired) {rank : Vertex → ℕ}
  (hrank : ∀ v w, root.Flows declared.scope v w → rank w < rank v)

include h hrank

/-- **Some budget is enough.** A drive with at least as much, whatever the configuration says of it,
stops for what tasks can stop for or not at all. -/
theorem Engine.Descends.exists_budget {s : Engine π κ}
    (hs : s.Descends registry root wired.channels rank) :
    ∃ n, ∀ c : Config, c.trace = s.config.trace → c.maxDepth = s.config.maxDepth →
      ∀ budget, n ≤ budget → ∀ stop s', drive .unbounded budget (s.under c) = .error stop s' →
        stop.IsOfTask := by
  -- By induction on the load, since every tick lowers it.
  induction s using (InvImage.wf (load (Task.rank wired.channels rank))
    Multiset.wellFounded_isDershowitzMannaLT).induction with
  | h s ih =>
    rcases makeRunnable_cases .unbounded s with ⟨s₁, hrunnable⟩ | hidle
    · have hs₁ := hs.of_makeRunnable hrunnable
      have hconfig : s₁.config = s.config := (SameWiring.of_makeRunnable hrunnable).config
      have hload : s₁.load (Task.rank wired.channels rank) = s.load (Task.rank wired.channels rank) := by
        rcases makeRunnable_engine hrunnable with rfl | ⟨time, rfl⟩ <;> rfl
      have hunder := makeRunnable_under hrunnable
      cases htick : tick s₁ with
      | error stop s₂ =>
        refine ⟨1, fun c htrace hdepth budget hbudget stop' s' hdrive => ?_⟩
        obtain ⟨budget, rfl⟩ := Nat.exists_eq_add_of_le' hbudget
        rw [← hconfig] at htrace hdepth
        have hunder' := tick_under (Config.suits_of_eq htrace hdepth (stopOf? (tick s₁)))
        rw [htick] at hunder'
        rw [drive_succ_of_runnable (hunder c), bind_of_error hunder'] at hdrive
        cases hdrive
        exact hs₁.stop_of_tick htick
      | ok count s₂ =>
        have hlower := load_tick h hrank hs₁.placed hs₁.closed (isRunnable_of_makeRunnable hrunnable) htick
        rw [hload] at hlower
        obtain ⟨hs₂, hsame⟩ := hs₁.of_tick htick
        obtain ⟨n, hn⟩ := ih s₂ hlower hs₂
        refine ⟨n + 1, fun c htrace hdepth budget hbudget stop s' hdrive => ?_⟩
        obtain ⟨budget, rfl⟩ := Nat.exists_eq_add_of_le' (Nat.le_of_add_left_le hbudget)
        rw [← hconfig] at htrace hdepth
        have hunder' := tick_under (Config.suits_of_eq htrace hdepth (stopOf? (tick s₁)))
        rw [htick] at hunder'
        rw [drive_succ_of_runnable (hunder c), bind_of_ok hunder'] at hdrive
        exact hn c (htrace.trans (by rw [hsame.config])) (hdepth.trans (by rw [hsame.config])) budget
          (Nat.le_of_succ_le_succ hbudget) stop s' hdrive
    · refine ⟨0, fun c _ _ budget _ stop s' hdrive => ?_⟩
      rw [drive_of_idle (makeRunnable_under hidle c)] at hdrive
      cases hdrive

end

/-! ## Settling -/

namespace Engine

variable {π κ : Type} [Process π] [Condition κ]

/-- What it means for settling not to fail for want of budget: it leaves nothing queued and no timer, or
it stops because a leaf refuses an input or inputs nest too deep, unless a time was asked for that is
not representable. -/
def ComesToRest (s : Engine π κ) : Prop :=
  (∃ s', settle s = .ok () s' ∧ s'.queue = #[] ∧ s'.clock.pending = []) ∨
    (∃ kind cause s', settle s = .error (.failed (.leaf kind cause)) s') ∨
    (∃ depth s', settle s = .error (.failed (.depthExceeded depth)) s') ∨
    (∃ s', settle s = .error .timeOverflow s') ∧ ∃ m, Comes (driving .unbounded s) m ∧ m.Overflows

/-- Settling is what its drive comes to. -/
theorem comes_settle (s : Engine π κ) : Comes (driving .unbounded s) (ended settle s) := by
  have hsettle : ended settle s = ended (driveAll .unbounded) s := ended_map _ (fun _ => ()) s
  rw [hsettle]
  exact comes_driveAll (fun _ => rfl) s

/-- A drive that stops for what tasks can stop for comes to rest. -/
theorem comesToRest_of_drive {s : Engine π κ}
    (h : ∀ stop s', drive .unbounded s.config.maxTicks s = .error stop s' → stop.IsOfTask) :
    s.ComesToRest := by
  have hsettle := settle_eq s
  have hoverflows := overflows_of_comes (comes_settle s) rfl
  unfold ended at hoverflows
  cases hdrive : drive .unbounded s.config.maxTicks s with
  | ok left s' =>
    rw [bind_of_ok hdrive] at hsettle
    exact .inl ⟨s', hsettle, drive_unbounded_eq_ok hdrive⟩
  | error stop s' =>
    have hstop := h stop s' hdrive
    rw [bind_of_error hdrive] at hsettle
    rw [hsettle] at hoverflows
    cases stop with
    | failed e =>
      cases e with
      | leaf kind cause => exact .inr (.inl ⟨kind, cause, s', hsettle⟩)
      | depthExceeded depth => exact .inr (.inr (.inl ⟨depth, s', hsettle⟩))
      | _ => exact hstop.elim
    | timeOverflow => exact .inr (.inr (.inr ⟨⟨s', hsettle⟩, hoverflows rfl⟩))
    | endless => exact hstop.elim

end Engine

namespace Graph

variable {π κ : Type} [Process π] [Condition κ] {registry : Registry π κ} {config : Config}
  {spec : SpecNode} {g : Graph π κ}

/-- Values of a built graph flow in no circle in any reachable state if they flow in none by its plan. -/
theorem Assembled.descends {root : Plan} {declared : Declared} {wired : Wired π κ}
    (h : Assembled registry spec root declared wired) {rank : Vertex → ℕ}
    (hrank : ∀ v w, root.Flows declared.scope v w → rank w < rank v)
    (hassemble : assemble registry spec = .ok (slotAt 0, declared.scope, wired))
    (hbuild : build registry config spec = .ok g) (ops : List Operation) :
    (g.operateAll ops).2.engine.Descends registry root wired.channels rank := by
  obtain ⟨ds, m, hstory, -, hengine⟩ := (story_of_build hassemble hbuild ops).1
  have hstart : Within (root.descending wired.channels rank) (activation config wired) := by
    refine ⟨h.closed_descending hrank config, fun job hjob => ?_⟩
    obtain ⟨slot, -, rfl⟩ := List.mem_map.1 hjob
    trivial
  have hwithin := hstart.of_story (root.drives_descending wired.channels rank) trivial trivial hstory
  exact ⟨hengine ▸ (h.placed config).of_story hstory, hengine ▸ hwithin.closed,
    (sound_operateAll hbuild ops).1.wellReferenced,
    (acyclic_operateAll hbuild ops).exists_rank (wellFormed_operateAll hbuild ops)⟩

/-- **Only broadcasts that feed back can keep a graph busy.** If by the plan of a specification that is
built no key leads back to itself, which means that values flow in no circle at all, then in every
reachable state there is a number of ticks such that settling with a budget of at least as many comes
to rest. -/
theorem settles_without_feedback (hbuild : build registry config spec = .ok g) :
    ∃ plan declared,
      (Plan.declare registry.shape? spec).run ⟨.empty, .empty⟩ = .ok (plan, declared) ∧
        plan.Reads registry.shape? declared.scope spec ∧
        ((∀ key, ¬Relation.TransGen (plan.Flows declared.scope) (.key key) (.key key)) →
          ∀ ops, ∃ n, ∀ ticks, n ≤ ticks →
            let s := (g.operateAll ops).2.engine
            (s.under { s.config with maxTicks := ticks }).ComesToRest) := by
  obtain ⟨wired, hassemble, -⟩ := build_eq_ok_iff.1 hbuild
  obtain ⟨plan, declared, hdeclare, hscope, hwire⟩ := assemble_eq_ok_iff.1 hassemble
  rw [hscope] at hwire
  obtain ⟨h, hroot⟩ := assembled_of_declare hdeclare hwire
  rw [hscope, hroot] at hassemble
  refine ⟨plan, declared, hdeclare, h.reads, fun hkeys ops => ?_⟩
  obtain ⟨rank, hrank⟩ := exists_rank_of_keys hkeys
  obtain ⟨n, hn⟩ := (h.descends hrank hassemble hbuild ops).exists_budget h hrank
  refine ⟨n, fun ticks hticks => comesToRest_of_drive ?_⟩
  exact hn { (g.operateAll ops).2.engine.config with maxTicks := ticks } rfl rfl ticks hticks

end Graph

/-- A component that broadcasts what it echoes, and another one in it that echoes what it hears. -/
def SpecNode.passedOn : SpecNode :=
  ⟨"component",
    [("consumers", .nodes
      [⟨"broadcast", [("key", .literal (.text "news"))]⟩,
       ⟨"component", [("consumers", .nodes [⟨"echo", []⟩]),
         ("producers", .nodes [⟨"listener", [("key", .literal (.text "news"))]⟩])]⟩]),
     ("producers", .nodes [⟨"echo", []⟩])]⟩

namespace Plan

/-- What the specification of the same name declares. -/
def passedOn : Plan :=
  .component [.broadcast ⟨0⟩, .node (.component [.node (.leaf ⟨"echo", []⟩ none)] [.listener "news"])]
    [.node (.leaf ⟨"echo", []⟩ none)]

/-- Ranks of the outer component, its echo, the key, and the others. -/
def passedOnRank : Vertex → ℕ
  | .node 0 => 3
  | .node 3 => 2
  | .key _ => 1
  | .node _ => 0

/-- Nothing but the outer echo reaches what values flow to. -/
theorem passedOn_reaches {site : Site} {listener : Listener} (hsite : site ∈ passedOn.layout)
    (h : site.Reaches passedOn listener) :
    (site.number = 3 ∧ (listener = .input (slotAt 1) ∨ listener = .broadcast ⟨0⟩)) ∨
      listener = .sink ∨ ∃ slot, listener = .output slot := by
  have houtputs : ∀ site ∈ passedOn.layout, ∀ listener ∈ site.outputs,
      (site.number = 3 ∧ (listener = .input (slotAt 1) ∨ listener = .broadcast ⟨0⟩)) ∨
        listener = .sink ∨ listener = .output (slotAt 0) ∨ listener = .output (slotAt 1) := by
    decide +kernel
  induction h with
  | listener h =>
    rcases houtputs _ hsite _ h with h | h | h | h
    · exact .inl h
    · exact .inr (.inl h)
    · exact .inr (.inr ⟨_, h⟩)
    · exact .inr (.inr ⟨_, h⟩)
  -- No output is passed on to the outer echo.
  | @passedOn site other listener hother h _ ih =>
    rcases ih hother with ⟨hnumber, -⟩ | hrest
    · rw [hnumber] at h
      rcases houtputs _ hsite _ h with ⟨-, h | h⟩ | h | h | h <;> cases h
    · exact .inr hrest

/-- The ranks of the example go down wherever values flow. -/
theorem passedOn_lowers (v w : Vertex) (h : passedOn.Flows ⟨[("news", ⟨0⟩)]⟩ v w) :
    passedOnRank w < passedOnRank v := by
  cases h with
  | producer hmem h =>
    obtain ⟨consumers, producers, hplan, part, hpart, rfl⟩ := h
    rcases hmem with _ | ⟨_, _ | ⟨_, _ | ⟨_, _ | ⟨_, ⟨⟩⟩⟩⟩⟩ <;> cases hplan
    · cases List.mem_singleton.1 hpart
      decide
    · cases hpart
  | positive hmem hplan | negative hmem hplan =>
    rcases hmem with _ | ⟨_, _ | ⟨_, _ | ⟨_, _ | ⟨_, ⟨⟩⟩⟩⟩⟩ <;> cases hplan
  | emission hmem hplan h =>
    rcases passedOn_reaches hmem h with ⟨hnumber, ⟨⟨⟩⟩ | ⟨⟨⟩⟩⟩ | ⟨⟨⟩⟩ | ⟨slot, ⟨⟩⟩
    rw [hnumber]
    decide
  | send hmem hplan h =>
    rcases passedOn_reaches hmem h with ⟨hnumber, ⟨⟨⟩⟩ | ⟨⟨⟩⟩⟩ | ⟨⟨⟩⟩ | ⟨slot, ⟨⟩⟩
    rw [hnumber]
    exact Nat.one_lt_two
  | heard hmem hlistens h | sentOn hmem hlistens h =>
    obtain ⟨consumers, producers, hplan, hlistens⟩ := hlistens
    rcases hmem with _ | ⟨_, _ | ⟨_, _ | ⟨_, _ | ⟨_, ⟨⟩⟩⟩⟩⟩ <;> cases hplan
    · cases List.mem_singleton.1 hlistens
    · cases List.mem_singleton.1 h <;> exact Nat.one_pos

end Plan

namespace Graph

/-- Whatever is echoed, broadcast and echoed again, an end of it comes. -/
theorem settles_without_feedback_in_turn :
    ∃ g plan declared, build Registry.echo {} SpecNode.passedOn = .ok g ∧
      (Plan.declare Registry.echo.shape? SpecNode.passedOn).run ⟨.empty, .empty⟩ =
        .ok (plan, declared) ∧
      (∀ v, ¬Relation.TransGen (plan.Flows declared.scope) v v) ∧
      ∃ n, ∀ ticks, n ≤ ticks →
        let s := (g.operateAll [.push .unit, .advanceBy 5, .push .unit]).2.engine
        (s.under { s.config with maxTicks := ticks }).ComesToRest := by
  have hok : (build Registry.echo {} SpecNode.passedOn).isOk = true := by cbv
  have hplan : (Plan.declare Registry.echo.shape? SpecNode.passedOn).run ⟨.empty, .empty⟩ =
      .ok (Plan.passedOn, ⟨⟨[("news", ⟨0⟩)]⟩, Channels.empty.create "news"⟩) := by cbv
  obtain ⟨g, hbuild⟩ := exists_of_isOk hok
  obtain ⟨plan, declared, hdeclare, -, hsettles⟩ := settles_without_feedback hbuild
  rw [hplan] at hdeclare
  cases hdeclare
  have hacyclic := Plan.acyclic_of_rank Plan.passedOn_lowers
  exact ⟨g, _, _, hbuild, hplan, hacyclic, hsettles (fun key => hacyclic (.key key)) _⟩

end Graph

end Dataflow
