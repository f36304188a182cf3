import Dataflow.Proofs.Probed

/-!
# Probes never disturb

A script that taps and reads were put into, and its own part. `Probing.Tale` tells the course of the
script, with every delivery to a probe that was put in marked; at rest it tells of both
(`Probing.Tells`), cue by cue. So following the script is following its own part, and the output
log of the one is that of the other with the marked values left out (`Graph.probes_never_disturb`).
-/

namespace Dataflow

namespace Probing

open Engine

variable {π κ : Type} [Process π] [Condition κ] {g : Graph π κ} {m m' : Probing π κ}

/-- The moment in which a cue of a script begins. -/
def enter (root : SlotId) : Cue → Probing π κ → Probing π κ
  | .own (.operation .takeOutputs), m => m.tookOutputs
  | .own (.operation op), m => m.begun root op
  | .own (.query _), m => m
  | .probe slot, m => m.probed root slot
  | .glance _, m => m

/-- The moments that a graph comes to while it follows a script. A cue begins only when nothing is left to
do of the one before. -/
inductive Tale (g : Graph π κ) : List Cue → Probing π κ → Prop
  | start : Tale g [] (start g.engine)
  | next {script : List Cue} {m m' : Probing π κ} (h : Tale g script m) (hnext : m.next? = some m') :
    Tale g script m'
  | enter {script : List Cue} {m : Probing π κ} (cue : Cue) (h : Tale g script m) (hrest : m.todo = []) :
    Tale g (script ++ [cue]) (m.enter g.root cue)

/-- The part of a script that is one's own. -/
abbrev ownPart (script : List Cue) : List Cue := script.filter Cue.isOwn

/-- A moment at rest tells of a script, and of its own part. -/
structure Tells (g : Graph π κ) (script : List Cue) (m : Probing π κ) : Prop where
  shows : m.Shows (g.follow script).2 (g.follow (ownPart script)).2
  taken : m.taken.map Prod.fst = (g.follow script).1.flatMap Exchange.taken
  ownTaken : unmarked m.taken = (g.follow (ownPart script)).1.flatMap Exchange.taken
  unseen : (g.follow script).1.filter (fun e => !e.1.seesProbes) =
    (g.follow (ownPart script)).1.filter fun e => !e.1.seesProbes

variable {script : List Cue}

/-- The first moment tells of the empty script. -/
theorem tells_start (g : Graph π κ) : Tells g [] (start g.engine) where
  shows := by
    refine ⟨.of_rest rfl (fun _ _ hmem => by cases hmem) (map_fst_map_false _), rfl, rfl, ?_, rfl, rfl⟩
    · show g.engine.unprobed [] (unmarked (g.engine.outputs.toList.map (·, false))).toArray = g.engine
      rw [unmarked_map_false, Array.toArray_toList]
      exact unprobed_nil g.engine
  taken := rfl
  ownTaken := rfl
  unseen := rfl

/-- One more request of one's own. -/
theorem Tells.concat_own (h : Tells g script m) {request : Request}
    (hshows : m'.Shows ((g.follow script).2.serve request).2
      ((g.follow (ownPart script)).2.serve request).2)
    (hresponse : request.seesProbes = false → ((g.follow (ownPart script)).2.serve request).1 =
      ((g.follow script).2.serve request).1)
    (htaken : m'.taken.map Prod.fst = m.taken.map Prod.fst ++
      Exchange.taken (request, ((g.follow script).2.serve request).1))
    (hownTaken : unmarked m'.taken = unmarked m.taken ++
      Exchange.taken (request, ((g.follow (ownPart script)).2.serve request).1)) :
    Tells g (script ++ [.own request]) m' := by
  have hown : ownPart (script ++ [.own request]) = ownPart script ++ [.own request] := by
    simp [ownPart, Cue.isOwn]
  have hfollow : ∀ script, g.follow (script ++ [.own request]) =
      ((g.follow script).1 ++ [(request, ((g.follow script).2.serve request).1)],
        ((g.follow script).2.serve request).2) := fun script => g.follow_concat script (.own request)
  refine ⟨?_, ?_, ?_, ?_⟩
  · rw [hown, hfollow, hfollow]
    exact hshows
  · rw [hfollow, htaken, h.taken]
    simp
  · rw [hown, hfollow, hownTaken, h.ownTaken]
    simp
  · rw [hown, hfollow, hfollow]
    dsimp only
    rw [List.filter_append, List.filter_append, h.unseen]
    cases hsees : request.seesProbes with
    | true => simp [hsees]
    | false => rw [hresponse hsees]

/-- One more cue that was put in. -/
theorem Tells.concat_other (h : Tells g script m) {cue : Cue} (hcue : cue.isOwn = false)
    (hshows : m'.Shows ((g.follow script).2.serve cue.request).2 (g.follow (ownPart script)).2)
    (htaken : m'.taken = m.taken) : Tells g (script ++ [cue]) m' := by
  have hown : ownPart (script ++ [cue]) = ownPart script := by simp [ownPart, hcue]
  have hfollow : g.follow (script ++ [cue]) =
      ((g.follow script).1, ((g.follow script).2.serve cue.request).2) := by
    rw [g.follow_concat script cue, hcue]
    simp
  refine ⟨?_, ?_, ?_, ?_⟩
  · rw [hown, hfollow]
    exact hshows
  · rw [hfollow, htaken, h.taken]
  · rw [hown, htaken, h.ownTaken]
  · rw [hown, hfollow]
    exact h.unseen

/-- An operation of one's own is done in both graphs alike, whatever was put in before. -/
theorem Tells.operate (h : Tells g script m) {op : Operation} (hop : op ≠ .takeOutputs) :
    ∃ m', (m.begun g.root op).Comes m' ∧ Tells g (script ++ [.own (.operation op)]) m' := by
  obtain ⟨m', hcomes, hshows, htaken, hanswer⟩ := h.shows.operate hop
  -- Both graphs have the root they were built with.
  rw [(g.follow_root_scope script).1] at hcomes
  refine ⟨m', hcomes, h.concat_own hshows (fun _ => congrArg Response.answer hanswer) ?_ ?_⟩
  · rw [htaken, Graph.serve, Exchange.taken_operation hop, List.append_nil]
  · rw [htaken, Graph.serve, Exchange.taken_operation hop, List.append_nil]

/-- Taking the output log hands over what is marked and what is not, and the marks tell which is which. -/
theorem Tells.takeOutputs (h : Tells g script m) :
    Tells g (script ++ [.own (.operation .takeOutputs)]) m.tookOutputs := by
  refine h.concat_own h.shows.takeOutputs (fun hsees => by cases hsees) ?_ ?_
  · show (m.taken ++ m.present).map Prod.fst = _ ++ (g.follow script).2.engine.outputs.toList
    rw [List.map_append, h.shows.sound.present, h.shows.engine]
  · show unmarked (m.taken ++ m.present) = _ ++ (g.follow (ownPart script)).2.engine.outputs.toList
    rw [unmarked_append, ← h.shows.bare]
    rfl

/-- A query is answered alike, unless it asks for what sees probes. -/
theorem Tells.consult (h : Tells g script m) (q : Query) : Tells g (script ++ [.own (.query q)]) m := by
  refine h.concat_own h.shows (fun hsees => ?_) (List.append_nil _).symm (List.append_nil _).symm
  exact congrArg Response.reading (h.shows.consult hsees)

/-- A probe makes no difference but to the outputs that are marked. -/
theorem Tells.probe (h : Tells g script m) (slot : SlotId) :
    Tells g (script ++ [.probe slot]) (m.probed g.root slot) := by
  have hshows := h.shows.probed slot
  rw [(g.follow_root_scope script).1] at hshows
  exact h.concat_other rfl hshows (probed_taken ..)

/-- When a cue has begun, a moment comes that tells of it. -/
theorem Tells.enter (h : Tells g script m) (cue : Cue) :
    ∃ m', (m.enter g.root cue).Comes m' ∧ Tells g (script ++ [cue]) m' := by
  cases cue with
  | own request =>
    cases request with
    | operation op =>
      cases op with
      | takeOutputs => exact ⟨m.tookOutputs, .refl, h.takeOutputs⟩
      | _ => exact h.operate (by simp)
    | query q => exact ⟨m, .refl, h.consult q⟩
  | probe slot => exact ⟨m.probed g.root slot, .refl, h.probe slot⟩
  | glance q => exact ⟨m, .refl, h.concat_other rfl h.shows rfl⟩

/-- A tale goes on as its jobs are done. -/
theorem Tale.comes (h : Tale g script m) (hcomes : m.Comes m') : Tale g script m' := by
  induction hcomes with
  | refl => exact h
  | tail _ hnext ih => exact ih.next hnext

/-- Nothing comes of a moment at which nothing is left to do. -/
theorem eq_of_rest (hrest : m.todo = []) (h : m.Comes m') : m' = m := by
  rcases h.cases_head with heq | ⟨_, hnext, -⟩
  · exact heq.symm
  · rw [next?, hrest] at hnext
    cases hnext

/-- Whatever moment a tale has come to, it goes on to one that tells of the script. -/
theorem Tale.exists_tells (h : Tale g script m) : ∃ m', m.Comes m' ∧ Tells g script m' := by
  induction h with
  | start => exact ⟨_, .refl, tells_start g⟩
  | next _ hnext ih =>
    obtain ⟨m', hcomes, htells⟩ := ih
    rcases hcomes.cases_head with rfl | ⟨m'', hnext', hcomes⟩
    · rw [next?, htells.shows.rest] at hnext
      cases hnext
    · rw [hnext] at hnext'
      cases hnext'
      exact ⟨m', hcomes, htells⟩
  | enter cue _ hrest ih =>
    obtain ⟨m', hcomes, htells⟩ := ih
    rw [eq_of_rest hrest hcomes] at htells
    exact htells.enter cue

/-- A tale at rest goes on to the end of any script. -/
theorem Tale.exists_rest (h : Tale g script m) (hrest : m.todo = []) (cues : List Cue) :
    ∃ m', Tale g (script ++ cues) m' ∧ m'.todo = [] := by
  induction cues generalizing script m with
  | nil => exact ⟨m, by rwa [List.append_nil], hrest⟩
  | cons cue cues ih =>
    have hbegun := h.enter cue hrest
    obtain ⟨m', hcomes, htells⟩ := hbegun.exists_tells
    obtain ⟨m'', htale, hrest'⟩ := ih (hbegun.comes hcomes) htells.shows.rest
    exact ⟨m'', by rwa [List.append_assoc] at htale, hrest'⟩

/-- A moment at rest tells of its script. -/
theorem Tale.tells (h : Tale g script m) (hrest : m.todo = []) : Tells g script m := by
  obtain ⟨m', hcomes, htells⟩ := h.exists_tells
  rwa [eq_of_rest hrest hcomes] at htells

end Probing

/-! ## Graphs with probes and without -/

namespace Graph

variable {π κ : Type}

/-- The values that were put into the output log while requests were served, or were there before. -/
def putOut (served : List Exchange × Graph π κ) : List Value :=
  served.1.flatMap Exchange.taken ++ served.2.engine.outputs.toList

variable [Process π] [Condition κ]

/-- Following a script is following its own part: what was put in disturbs nothing. One's own requests that
do not see probes are answered the same, and the graph is the same but for the output log and listeners.
And a tale of the script, which there is, tells where the values in the output log came from: those that did
not come through probes are those that come into it without them. -/
structure Undisturbed (g : Graph π κ) (script : List Cue) : Prop where
  answers : (g.follow script).1.filter (fun e => !e.1.seesProbes) =
    (g.follow (Probing.ownPart script)).1.filter fun e => !e.1.seesProbes
  rest : SameButListeners (g.follow script).2 (g.follow (Probing.ownPart script)).2
  told : ∃ m, Probing.Tale g script m ∧ m.todo = []
  outputs : ∀ m, Probing.Tale g script m → m.todo = [] →
    m.engine = (g.follow script).2.engine ∧
      m.record.map Prod.fst = putOut (g.follow script) ∧
      unmarked m.record = putOut (g.follow (Probing.ownPart script))

/-- **Probes never disturb.** Whatever graph it is and wherever taps and queries are put into what is asked
of it, they make no difference to it, and what they add to its output log can be told from the rest. -/
theorem probes_never_disturb (g : Graph π κ) (script : List Cue) : g.Undisturbed script := by
  have hstart : Probing.Tale g [] (.start g.engine) := .start
  obtain ⟨m, htale, hrest⟩ := hstart.exists_rest rfl script
  have htells := htale.tells hrest
  refine ⟨htells.unseen, htells.shows.sameButListeners, ⟨m, htale, hrest⟩, fun m' htale' hrest' => ?_⟩
  obtain ⟨hshows, htaken, hownTaken, -⟩ := htale'.tells hrest'
  refine ⟨hshows.engine, ?_, ?_⟩
  · rw [Probing.record, List.map_append, htaken, hshows.sound.present, hshows.engine]
    rfl
  · rw [Probing.record, unmarked_append, hownTaken, putOut, ← hshows.bare]
    rfl

-- What an echo is given is sent out later. It comes once to the output log, and once more through a probe.
example :
    let script (root : SlotId) : List Cue := [.own (.operation (.push .unit)), .probe root,
      .own (.operation (.advanceBy 5)), .own (.operation .takeOutputs)]
    (build Registry.echo {} ⟨"echo", []⟩).toOption.map (fun g =>
      ((putOut (g.follow (script g.root))).length,
        (putOut (g.follow (Probing.ownPart (script g.root)))).length)) = some (2, 1) := by
  decide +kernel

end Graph

end Dataflow
