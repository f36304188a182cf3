import Dataflow.Proofs.Limits
import Dataflow.Proofs.Requests
import Dataflow.Proofs.Unprobed

/-!
# Probing

The course of a graph with probes, in which every delivery to a probe is marked and every value that comes
into the output log is noted, with the mark of its delivery. The marks are told from the places of the probes
and have no part in what is done: without them the course is that of the engine (`Probing.next?_moment`).

Without the marked deliveries and the probes it is a course as well, of the engine that nobody watches
(`Probing.next?_bare`): a marked delivery is no step of it, and any other job is one.
-/

namespace Dataflow

open Moment

/-! ## Probes in their places -/

namespace Engine

variable {π κ : Type} {probes : List Place} {s s' : Engine π κ}

/-- Probes are what they are said to be: listeners that put what they hear into the output log. -/
def HoldsProbes (probes : List Place) (s : Engine π κ) : Prop :=
  ∀ slot i, (slot, i) ∈ probes → ∃ n, s.arena.get? slot = some n ∧ n.outputs[i]? = some .sink

/-- No probe is where the next listener comes. -/
theorem HoldsProbes.not_mem (h : s.HoldsProbes probes) {slot : SlotId} {n : Node π κ}
    (hget : s.arena.get? slot = some n) : (slot, n.outputs.length) ∉ probes := by
  intro hmem
  obtain ⟨n', hget', hsink⟩ := h slot _ hmem
  rw [hget] at hget'
  cases hget'
  rw [List.getElem?_eq_none (Nat.le_refl _)] at hsink
  cases hsink

/-- Which listeners are probes depends on the wiring alone. -/
theorem HoldsProbes.of_sameWiring (h : s.HoldsProbes probes) (hsame : s.SameWiring s') :
    s'.HoldsProbes probes := by
  intro slot i hprobe
  obtain ⟨n, hget, hsink⟩ := h slot i hprobe
  have hwiring := hsame.nodes slot
  rw [hget, Option.map_some] at hwiring
  obtain ⟨n', hget', hwiring'⟩ := Option.map_eq_some_iff.1 hwiring
  have houtputs : n'.outputs = n.outputs := congrArg Prod.snd hwiring'
  exact ⟨n', hget', houtputs ▸ hsink⟩

/-- Listeners that are added come after the probes. -/
theorem HoldsProbes.tapped (h : s.HoldsProbes probes) {slot : SlotId} {n : Node π κ}
    (hget : s.arena.get? slot = some n) :
    HoldsProbes probes
      { s with arena := s.arena.set slot { n with outputs := n.outputs ++ [.sink] } } := by
  intro other i hprobe
  obtain ⟨old, hold, hsink⟩ := h other i hprobe
  by_cases hother : other = slot
  · subst hother
    rw [hget] at hold
    cases hold
    refine ⟨_, Arena.get?_set_self hget _, ?_⟩
    have hlt : i < n.outputs.length := (List.getElem?_eq_some_iff.1 hsink).1
    show (n.outputs ++ [.sink])[i]? = some .sink
    rw [List.getElem?_append_left hlt, hsink]
  · exact ⟨old, by rw [Arena.get?_set_of_ne hother, hold], hsink⟩

/-- One more listener of the output log is one more probe, where it is said to be one. -/
theorem HoldsProbes.probed (h : s.HoldsProbes probes) {slot : SlotId} {n : Node π κ}
    (hget : s.arena.get? slot = some n) :
    HoldsProbes ((slot, n.outputs.length) :: probes)
      { s with arena := s.arena.set slot { n with outputs := n.outputs ++ [.sink] } } := by
  intro other i hprobe
  rcases List.mem_cons.1 hprobe with heq | hprobe
  · cases heq
    exact ⟨_, Arena.get?_set_self hget _, List.getElem?_concat_length⟩
  · exact h.tapped hget other i hprobe

end Engine

/-! ## What is put into the output log -/

namespace Job

open Engine

variable {π κ : Type} {s s' : Engine π κ}

/-- What a job puts into the output log, with its mark. -/
def puts (mark : Bool) : Job → List (Value × Bool)
  | .deliver _ .sink value => [(value, mark)]
  | _ => []

/-- Only a delivery to the output log puts something there. -/
theorem puts_of_not_isSink {job : Job} (h : ¬job.IsSink) (mark : Bool) : job.puts mark = [] := by
  unfold puts
  split
  · exact absurd trivial h
  · rfl

/-- What goes to the output log is a value that is delivered. -/
theorem IsSink.exists {job : Job} (h : job.IsSink) :
    ∃ hops value, job = .deliver hops .sink value := by
  unfold IsSink at h
  split at h
  · exact ⟨_, _, rfl⟩
  · exact h.elim

/-- Giving up jobs takes nothing out of the output log. -/
theorem giveUp_outputs (job : Job) (s : Engine π κ) : (job.giveUp s).outputs = s.outputs := by
  cases job <;> rfl

variable [Process π] [Condition κ]

/-- Only deliveries to the output log change it. -/
theorem outputs_start {job : Job} (hjob : ¬job.IsSink) (s : Engine π κ) :
    (ended job.start s).engine.outputs = s.outputs := by
  -- Without any probes, and with the log that there is, the engine is what it is.
  have hstart : job.start (s.unprobed [] s.outputs) = _ := start_unprobed hjob s
  rw [unprobed_nil] at hstart
  unfold ended
  rw [hstart]
  cases job.start s <;> rfl

/-- A job that begins leaves the output log to deliveries. -/
theorem outputs_of_ok {job : Job} {jobs : List Job} (hjob : ¬job.IsSink)
    (hstart : job.start s = .ok jobs s') : s'.outputs = s.outputs := by
  have houtputs := outputs_start hjob s
  rwa [ended, hstart] at houtputs

/-- A job that fails leaves the output log to deliveries. -/
theorem outputs_of_error {job : Job} {stop : Stop} (hjob : ¬job.IsSink)
    (hstart : job.start s = .error stop s') : s'.outputs = s.outputs := by
  have houtputs := outputs_start hjob s
  rwa [ended, hstart] at houtputs

/-- The deliveries that come of a probe are to the output log. -/
theorem isSink_of_mem_marks {probes : List Place} {job : Job} {jobs : List Job} {j : Job}
    (hprobes : s.HoldsProbes probes) (hstart : job.start s = .ok jobs s')
    (hmem : (j, true) ∈ job.marks probes jobs) : j.IsSink := by
  cases job with
  | relay hops slot value =>
    obtain ⟨i, hprobe, hget⟩ := mem_markAt_true.1 hmem
    obtain ⟨node, hnode, hsink⟩ := hprobes slot i hprobe
    have hrelay : startRelay hops slot value s = .ok jobs s' := hstart
    cases hops with
    | zero => cases hrelay
    | succ hops =>
      rw [startRelay, node?_bind, hnode] at hrelay
      dsimp only at hrelay
      rw [trace_bind] at hrelay
      cases hrelay
      rw [List.getElem?_map, hsink] at hget
      cases hget
      trivial
  | _ =>
    obtain ⟨_, -, heq⟩ := List.mem_map.1 hmem
    cases heq

end Job

/-! ## Moments with marks -/

/-- A moment of an engine with probes. -/
structure Probing (π κ : Type) where
  engine : Engine π κ
  /-- The jobs still to be done, the next one first, marked if they deliver to a probe. -/
  todo : List (Job × Bool)
  stop? : Option Stop
  probes : List Place
  /-- The values that were taken out of the output log, marked if they came through a probe. -/
  taken : List (Value × Bool)
  /-- The values in the output log, marked if they came through a probe. -/
  present : List (Value × Bool)

namespace Probing

open Engine

variable {π κ : Type}

/-- An engine at rest, without probes. -/
def start (s : Engine π κ) : Probing π κ :=
  ⟨s, [], none, [], [], s.outputs.toList.map (·, false)⟩

/-- The values that were put into the output log, or were there, marked if they came through a probe. -/
def record (m : Probing π κ) : List (Value × Bool) := m.taken ++ m.present

/-- The moment without marks. -/
def moment (m : Probing π κ) : Moment π κ := ⟨m.engine, m.todo.map Prod.fst, m.stop?⟩

/-- The moment without probes and what is marked. -/
def bare (m : Probing π κ) : Moment π κ :=
  ⟨m.engine.unprobed m.probes (unmarked m.present).toArray, unmarked m.todo, m.stop?⟩

/-- What is known at every moment. -/
structure Sound (m : Probing π κ) : Prop where
  probes : m.engine.HoldsProbes m.probes
  marked : ∀ job, (job, true) ∈ m.todo → job.IsSink
  present : m.present.map Prod.fst = m.engine.outputs.toList
  going : m.todo ≠ [] → m.stop? = none

variable {m m' : Probing π κ} {job : Job} {mark : Bool} {rest : List (Job × Bool)} {jobs : List Job}
  {s' : Engine π κ} {stop : Stop}

/-- What is known at rest is where the probes are, and what was put into the output log. -/
theorem Sound.of_rest (hrest : m.todo = []) (hprobes : m.engine.HoldsProbes m.probes)
    (hpresent : m.present.map Prod.fst = m.engine.outputs.toList) : m.Sound where
  probes := hprobes
  marked job hmem := by
    rw [hrest] at hmem
    cases hmem
  present := hpresent
  going hgoing := absurd hrest hgoing

/-- What is left without probes, when something is to be done next. -/
theorem Sound.bare_of_cons (h : m.Sound) (htodo : m.todo = (job, mark) :: rest) :
    m.bare = ⟨m.engine.unprobed m.probes (unmarked m.present).toArray,
      if mark then unmarked rest else job :: unmarked rest, none⟩ := by
  have hstop : m.stop? = none := h.going (htodo ▸ List.cons_ne_nil _ _)
  rw [bare, htodo, hstop, unmarked_cons]

/-- Given up with the others or without them, deliveries to probes leave the engine alone. -/
theorem unwind_unprobed {todo : List (Job × Bool)} (h : ∀ job, (job, true) ∈ todo → job.IsSink)
    (probes : List Place) (outputs : Array Value) (s : Engine π κ) :
    unwind (unmarked todo) (s.unprobed probes outputs) =
      (unwind (todo.map Prod.fst) s).unprobed probes outputs := by
  induction todo generalizing s with
  | nil => rfl
  | cons first rest ih =>
    obtain ⟨job, mark⟩ := first
    have hrest := ih fun j hj => h j (List.mem_cons_of_mem _ hj)
    cases mark with
    | true =>
      obtain ⟨hops, value, rfl⟩ := (h job (List.mem_cons_self ..)).exists
      exact hrest s
    | false =>
      have hgiveUp : job.giveUp (s.unprobed probes outputs) =
          (job.giveUp s).unprobed probes outputs := by cases job <;> rfl
      rw [unmarked_cons, unwind]
      show (unmarked rest).foldl Job.giveUp (job.giveUp (s.unprobed probes outputs)) = _
      rw [hgiveUp]
      exact hrest (job.giveUp s)

/-- Giving up what is left takes nothing out of the output log. -/
theorem unwind_outputs (todo : List Job) (s : Engine π κ) : (unwind todo s).outputs = s.outputs := by
  induction todo generalizing s with
  | nil => rfl
  | cons job rest ih => exact (ih _).trans (job.giveUp_outputs s)

variable [Process π] [Condition κ]

/-- The moment after the next job has begun, if there is one. -/
def next? (m : Probing π κ) : Option (Probing π κ) :=
  match m.todo with
  | [] => none
  | (job, mark) :: rest =>
    match job.start m.engine with
    | .ok jobs s => some { m with
        engine := s
        todo := job.marks m.probes jobs ++ rest
        stop? := none
        present := m.present ++ job.puts mark }
    | .error stop s => some { m with
        engine := unwind (rest.map Prod.fst) s
        todo := []
        stop? := some stop }

/-- The second moment comes after the first one, or is the same. -/
abbrev Comes : Probing π κ → Probing π κ → Prop := Relation.ReflTransGen fun m m' => m.next? = some m'

/-- A job that begins puts its jobs in front, marked as the listeners they go to. -/
theorem next?_of_ok (htodo : m.todo = (job, mark) :: rest) (hstart : job.start m.engine = .ok jobs s') :
    m.next? = some { m with
      engine := s'
      todo := job.marks m.probes jobs ++ rest
      stop? := none
      present := m.present ++ job.puts mark } := by
  simp only [next?, htodo, hstart]

/-- A job that fails gives up the rest, marked or not. -/
theorem next?_of_error (htodo : m.todo = (job, mark) :: rest)
    (hstart : job.start m.engine = .error stop s') :
    m.next? = some { m with
      engine := unwind (rest.map Prod.fst) s'
      todo := []
      stop? := some stop } := by
  simp only [next?, htodo, hstart]

/-- The next moment is the one after the next job has begun, or after it has failed. -/
theorem next?_cases (hnext : m.next? = some m') :
    ∃ job mark rest, m.todo = (job, mark) :: rest ∧
      ((∃ jobs s', job.start m.engine = .ok jobs s' ∧ m' = { m with
          engine := s'
          todo := job.marks m.probes jobs ++ rest
          stop? := none
          present := m.present ++ job.puts mark }) ∨
        ∃ stop s', job.start m.engine = .error stop s' ∧ m' = { m with
          engine := unwind (rest.map Prod.fst) s'
          todo := []
          stop? := some stop }) := by
  cases htodo : m.todo with
  | nil =>
    rw [next?, htodo] at hnext
    cases hnext
  | cons first rest =>
    obtain ⟨job, mark⟩ := first
    refine ⟨job, mark, rest, rfl, ?_⟩
    cases hstart : job.start m.engine with
    | ok jobs s' =>
      rw [next?_of_ok htodo hstart] at hnext
      exact .inl ⟨jobs, s', rfl, (Option.some.inj hnext).symm⟩
    | error stop s' =>
      rw [next?_of_error htodo hstart] at hnext
      exact .inr ⟨stop, s', rfl, (Option.some.inj hnext).symm⟩

/-- Marks have no part in what is done. -/
theorem next?_moment (m : Probing π κ) : m.next?.map moment = m.moment.next? := by
  cases htodo : m.todo with
  | nil =>
    have hmoment : m.moment.todo = [] := by rw [moment, htodo, List.map_nil]
    rw [next?, htodo, Moment.next?, hmoment]
    rfl
  | cons first rest =>
    obtain ⟨job, mark⟩ := first
    have hmoment : m.moment = ⟨m.engine, job :: rest.map Prod.fst, m.stop?⟩ := by
      rw [moment, htodo, List.map_cons]
    rw [hmoment]
    cases hstart : job.start m.engine with
    | ok jobs s' =>
      rw [next?_of_ok htodo hstart, Moment.next?_of_ok hstart, Option.map_some, moment]
      rw [List.map_append, Job.map_fst_marks]
    | error stop s' =>
      rw [next?_of_error htodo hstart, Moment.next?_of_error hstart]
      rfl

/-- A course without marks is one with marks. -/
theorem exists_of_comes {x : Moment π κ} (h : Moment.Comes m.moment x) :
    ∃ m', m.Comes m' ∧ m'.moment = x := by
  induction h with
  | refl => exact ⟨m, .refl, rfl⟩
  | tail _ hnext ih =>
    obtain ⟨before, hcomes, rfl⟩ := ih
    rw [← next?_moment, Option.map_eq_some_iff] at hnext
    obtain ⟨after, hafter, rfl⟩ := hnext
    exact ⟨after, hcomes.tail hafter, rfl⟩

/-- Every step keeps a moment with probes sound. -/
theorem Sound.next (h : m.Sound) (hnext : m.next? = some m') : m'.Sound := by
  have hsame : m.engine.SameWiring m'.engine := by
    have hmoment := next?_moment m
    rw [hnext] at hmoment
    exact sameWiring_of_next? hmoment.symm
  have hprobes := h.probes.of_sameWiring hsame
  obtain ⟨job, mark, rest, htodo, ⟨jobs, s', hstart, rfl⟩ | ⟨stop, s', hstart, rfl⟩⟩ := next?_cases hnext
  · refine ⟨hprobes, fun j hj => ?_, ?_, fun _ => rfl⟩
    · rcases List.mem_append.1 hj with hj | hj
      · exact Job.isSink_of_mem_marks h.probes hstart hj
      · exact h.marked j (htodo ▸ List.mem_cons_of_mem _ hj)
    · show (m.present ++ job.puts mark).map Prod.fst = s'.outputs.toList
      rw [List.map_append, h.present]
      by_cases hsink : job.IsSink
      · obtain ⟨hops, value, rfl⟩ := hsink.exists
        cases hstart
        rw [Array.toList_push]
        rfl
      · rw [Job.puts_of_not_isSink hsink, List.map_nil, List.append_nil, Job.outputs_of_ok hsink hstart]
  · refine .of_rest rfl hprobes ?_
    -- A delivery to the output log does not fail.
    have hsink : ¬job.IsSink := by
      intro hsink
      obtain ⟨hops, value, rfl⟩ := hsink.exists
      cases hstart
    show m.present.map Prod.fst = (unwind _ s').outputs.toList
    rw [unwind_outputs, h.present, Job.outputs_of_error hsink hstart]

/-- However far it comes, a moment with probes stays sound. -/
theorem Sound.comes (h : m.Sound) (hcomes : m.Comes m') : m'.Sound := by
  induction hcomes with
  | refl => exact h
  | tail _ hnext ih => exact ih.next hnext

/-- Without probes, a delivery to the output log is one as well, unless it is to a probe. -/
theorem Sound.next?_bare_of_sink (h : m.Sound) {hops : Nat} {value : Value}
    (htodo : m.todo = (.deliver hops .sink value, mark) :: rest) (hnext : m.next? = some m') :
    if mark then m'.bare = m.bare else m.bare.next? = some m'.bare := by
  have hstart : (Job.deliver hops .sink value).start m.engine =
      .ok [] { m.engine with outputs := m.engine.outputs.push value } := rfl
  rw [next?_of_ok htodo hstart] at hnext
  cases hnext
  rw [h.bare_of_cons htodo, bare]
  cases mark with
  | true =>
    have hpresent : unmarked (m.present ++ [(value, true)]) = unmarked m.present := by simp
    show (⟨_, unmarked rest, none⟩ : Moment π κ) = _
    rw [Job.puts, hpresent]
    rfl
  | false =>
    have hpresent : (unmarked (m.present ++ [(value, false)])).toArray =
        (unmarked m.present).toArray.push value := by simp
    show some (⟨_, unmarked rest, none⟩ : Moment π κ) = _
    rw [Job.puts, hpresent]
    rfl

/-- Without probes, what is not a delivery to the output log begins as it does with them. -/
theorem Sound.next?_bare_of_not_sink (h : m.Sound) (htodo : m.todo = (job, false) :: rest)
    (hsink : ¬job.IsSink) (hnext : m.next? = some m') : m.bare.next? = some m'.bare := by
  have hrest : ∀ j, (j, true) ∈ rest → j.IsSink := fun j hj =>
    h.marked j (htodo ▸ List.mem_cons_of_mem _ hj)
  have hbare : m.bare = ⟨m.bare.engine, job :: unmarked rest, none⟩ := h.bare_of_cons htodo
  have hunprobed : job.start m.bare.engine = _ := Job.start_unprobed hsink m.engine
  rw [hbare]
  cases hstart : job.start m.engine with
  | ok jobs s' =>
    rw [hstart] at hunprobed
    rw [next?_of_ok htodo hstart] at hnext
    cases hnext
    rw [Moment.next?_of_ok hunprobed, bare, Job.puts_of_not_isSink hsink, List.append_nil,
      unmarked_append]
  | error stop s' =>
    rw [hstart] at hunprobed
    rw [next?_of_error htodo hstart] at hnext
    cases hnext
    rw [Moment.next?_of_error hunprobed, unwind_unprobed hrest]
    rfl

/-- **A step with probes is one without them, or none.** -/
theorem next?_bare (h : m.Sound) (hnext : m.next? = some m') :
    m'.bare = m.bare ∨ m.bare.next? = some m'.bare := by
  obtain ⟨job, mark, rest, htodo, -⟩ := next?_cases hnext
  by_cases hsink : job.IsSink
  · obtain ⟨hops, value, rfl⟩ := hsink.exists
    have hbare := h.next?_bare_of_sink htodo hnext
    cases mark with
    | true => exact .inl hbare
    | false => exact .inr hbare
  · cases mark with
    | true => exact absurd (h.marked job (htodo ▸ List.mem_cons_self ..)) hsink
    | false => exact .inr (h.next?_bare_of_not_sink htodo hsink hnext)

/-- A course with probes is one without them, which may be shorter. -/
theorem comes_bare (h : m.Sound) (hcomes : m.Comes m') : Moment.Comes m.bare m'.bare := by
  induction hcomes with
  | refl => exact .refl
  | tail hbefore hnext ih =>
    rcases next?_bare (h.comes hbefore) hnext with heq | hstep
    · exact heq ▸ ih
    · exact ih.tail hstep

end Probing

end Dataflow
