import Dataflow.Clock.Lemmas

/-!
# The clock as an agenda

To its users a clock is an agenda: what was scheduled stays on it until it is taken off, and of all
that is on it the timer with the earliest deadline comes first, of one deadline the one scheduled
first. A pop may ask for a time that is still to come, and moving the time may pass over timers; what
was popped before still precedes whatever is scheduled later, since a deadline is never before the
present and the present never before a popped deadline (`Passed`).

Every turn of a history is described by what came onto the agenda, what left it and the time after it
(`Lawful`), and the whole history by its ledger and by the order of what was popped
(`timers_fire_in_order`).
-/

namespace Dataflow.Clock

variable {τ : Type}

/-! ## Histories of a clock -/

/-- A use of a clock. -/
inductive Call (τ : Type) where
  | schedule (delay : Nat) (task : τ)
  | popDue (limit : Nat)
  | advanceTo (target : Nat)
  | clear
  deriving Repr, DecidableEq

/-- A use of a clock that was served: the task it was answered with, if with any, and the clocks
before and after it. -/
structure Turn (τ : Type) where
  call : Call τ
  before : Clock τ
  task? : Option τ
  after : Clock τ
  deriving Repr, DecidableEq

/-- Serves a call, unless it asks for a deadline that is not representable. -/
def serve? (c : Clock τ) : Call τ → Option (Turn τ)
  | .schedule delay task =>
    (c.schedule? delay task).map fun after => ⟨.schedule delay task, c, none, after⟩
  | .popDue limit => some ⟨.popDue limit, c, (c.popDue limit).1, (c.popDue limit).2⟩
  | .advanceTo target => some ⟨.advanceTo target, c, none, c.advanceTo target⟩
  | .clear => some ⟨.clear, c, none, c.clear⟩

/-- Serves calls, one after the other, up to the first that cannot be served. Returns the turns, and
the clock after them. -/
def serveAll (c : Clock τ) : List (Call τ) → List (Turn τ) × Clock τ
  | [] => ([], c)
  | call :: calls =>
    match c.serve? call with
    | none => ([], c)
    | some turn =>
      let (turns, c) := turn.after.serveAll calls
      (turn :: turns, c)

/-- The timers of a list whose numbers do not occur in another one. -/
def without (ts us : List (Timer τ)) : List (Timer τ) :=
  ts.filter fun t => us.all fun u => u.sequence != t.sequence

namespace Turn

/-- The timers that are pending after a turn and were not before. -/
def came (turn : Turn τ) : List (Timer τ) := without turn.after.pending turn.before.pending

/-- The timers that were pending before a turn and are not any more. -/
def gone (turn : Turn τ) : List (Timer τ) := without turn.before.pending turn.after.pending

/-- The timers that a turn has popped. -/
def popped (turn : Turn τ) : List (Timer τ) :=
  match turn.call with
  | .popDue _ => turn.gone
  | _ => []

/-- The timers that a turn has cleared. -/
def cleared (turn : Turn τ) : List (Timer τ) :=
  match turn.call with
  | .clear => turn.gone
  | _ => []

end Turn

/-- How a clock may serve a call: what it answers, which timers come and go, and what time it is
then. -/
inductive Lawful (c : Clock τ) :
    Call τ → Option τ → List (Timer τ) → List (Timer τ) → Nat → Prop
  | scheduled (delay : Nat) (task : τ) (hfits : c.now + delay < Duration.limit) :
    Lawful c (.schedule delay task) none [⟨c.now + delay, c.scheduled, task⟩] [] c.now
  /-- The first of all pending timers is due. -/
  | popped (limit : Nat) {t : Timer τ} (ht : t ∈ c.pending) (hdue : t.fireAt ≤ limit)
    (hfirst : ∀ u ∈ c.pending, u = t ∨ t.before u = true) :
    Lawful c (.popDue limit) (some t.task) [] [t] (max c.now t.fireAt)
  /-- No pending timer is due. -/
  | waited (limit : Nat) (hlate : ∀ t ∈ c.pending, limit < t.fireAt) :
    Lawful c (.popDue limit) none [] [] c.now
  | advanced (target : Nat) : Lawful c (.advanceTo target) none [] [] (max c.now target)
  | cleared : Lawful c .clear none [] c.pending c.now

/-! ## Timers that come and go -/

/-- One timer more, with a number that no other has, is the one that came. -/
theorem without_perm_cons {t : Timer τ} {ts us : List (Timer τ)} (h : ts.Perm (t :: us))
    (hfresh : ∀ u ∈ us, u.sequence ≠ t.sequence) : without ts us = [t] := by
  have hkept : (us.all fun u => u.sequence != t.sequence) = true := by
    simpa using hfresh
  have hdropped : without us us = [] := by
    simp only [without, List.filter_eq_nil_iff, List.all_eq_true, bne_iff_ne]
    intro u hu hall
    exact hall u hu rfl
  have hperm := h.filter fun t => us.all fun u => u.sequence != t.sequence
  rw [List.filter_cons_of_pos (by simpa using hkept)] at hperm
  unfold without at hdropped ⊢
  rw [hdropped] at hperm
  exact List.perm_singleton.1 hperm

/-- Nothing came if all was there before. -/
theorem without_of_subset {ts us : List (Timer τ)} (h : ts ⊆ us) : without ts us = [] := by
  simp only [without, List.filter_eq_nil_iff, List.all_eq_true, bne_iff_ne]
  intro t ht hall
  exact hall t (h ht) rfl

/-- If nothing was there before, all came. -/
@[simp] theorem without_nil (ts : List (Timer τ)) : without ts [] = ts := by
  simp [without]

/-- The pending timers are in firing order, and each has a number of its own. -/
structure Sound (c : Clock τ) : Prop extends c.WellFormed where
  distinct : c.pending.Pairwise fun t u => u.sequence ≠ t.sequence

/-- A clock begins sound, with nothing pending. -/
theorem Sound.initial : (initial : Clock τ).Sound := ⟨.initial, .nil⟩

/-! ## Turns -/

/-- What is known of a turn: it is lawful, keeps the clock sound, and loses no timer. -/
structure Serves (c : Clock τ) (call : Call τ) (turn : Turn τ) : Prop where
  call_eq : turn.call = call
  before_eq : turn.before = c
  lawful : Lawful c call turn.task? turn.came turn.gone turn.after.now
  sound : turn.after.Sound
  /-- As many timers were scheduled as came. -/
  scheduled : turn.after.scheduled = c.scheduled + turn.came.length
  ledger : (c.pending ++ turn.came).Perm (turn.popped ++ (turn.cleared ++ turn.after.pending))

/-- A call can be served unless it is for a deadline that is not representable. -/
theorem serve?_eq_none_iff {c : Clock τ} {call : Call τ} :
    c.serve? call = none ↔
      ∃ delay task, call = .schedule delay task ∧ Duration.limit ≤ c.now + delay := by
  cases call with
  | schedule delay task =>
    have hschedule : c.schedule? delay task = none ↔ Duration.limit ≤ c.now + delay := by
      unfold schedule? Duration.add?
      split
      · simpa
      · simpa using Nat.le_of_not_lt ‹_›
    simp [serve?, hschedule]
  | _ => simp [serve?]

/-- Scheduling adds one timer under a number of its own, and takes none away. -/
theorem serves_schedule {c after : Clock τ} (h : c.Sound) {delay : Nat} {task : τ}
    (hafter : c.schedule? delay task = some after) :
    Serves c (.schedule delay task) ⟨.schedule delay task, c, none, after⟩ := by
  have hwell := h.toWellFormed.schedule? hafter
  obtain ⟨hfits, rfl⟩ := schedule?_eq_some_iff.1 hafter
  let t : Timer τ := ⟨c.now + delay, c.scheduled, task⟩
  have hperm : (insert t c.pending).Perm (t :: c.pending) := insert_perm t c.pending
  -- The clock numbers timers by how many were scheduled, which is more than any number pending.
  have hfresh : ∀ u ∈ c.pending, u.sequence ≠ t.sequence := fun u hu =>
    Nat.ne_of_lt (h.sequence_lt u hu)
  have hcame : without (insert t c.pending) c.pending = [t] := without_perm_cons hperm hfresh
  have hgone : without c.pending (insert t c.pending) = [] :=
    without_of_subset fun u hu => mem_insert.2 (.inr hu)
  have hdistinct : (insert t c.pending).Pairwise fun t u => u.sequence ≠ t.sequence := by
    refine (hperm.pairwise_iff fun hne => Ne.symm hne).2 (List.pairwise_cons.2 ⟨?_, h.distinct⟩)
    exact hfresh
  refine ⟨rfl, rfl, ?_, ⟨hwell, hdistinct⟩, ?_, ?_⟩
  · have hlawful : Lawful c _ _ _ _ _ := .scheduled delay task hfits
    unfold Turn.came Turn.gone
    rwa [hcame, hgone]
  · unfold Turn.came
    rw [hcame]
    rfl
  · unfold Turn.came
    rw [hcame]
    exact (List.perm_append_singleton t c.pending).trans hperm.symm

/-- Popping takes the first timer if it is due, and nothing otherwise. -/
theorem serves_popDue {c : Clock τ} (h : c.Sound) (limit : Nat) :
    Serves c (.popDue limit) ⟨.popDue limit, c, (c.popDue limit).1, (c.popDue limit).2⟩ := by
  have hnothing : ∀ c : Clock τ, without c.pending c.pending = [] := fun c =>
    without_of_subset (List.Subset.refl _)
  cases hpop : c.popDue limit with
  | mk task? after =>
  cases task? with
  | none =>
    obtain ⟨rfl, hlate⟩ := (popDue_eq_none_iff h.toWellFormed).1 hpop
    have hlawful : Lawful after (.popDue limit) none [] [] after.now := .waited limit hlate
    refine ⟨rfl, rfl, ?_, h, ?_, ?_⟩ <;>
      simp only [Turn.came, Turn.gone, Turn.popped, Turn.cleared, hnothing]
    · exact hlawful
    · rfl
    · simp
  | some task =>
    have hwell := h.toWellFormed.popDue limit
    rw [hpop] at hwell
    obtain ⟨t, rest, hpending, hdue, rfl, rfl⟩ := popDue_eq_some_iff.1 hpop
    have hordered := h.ordered
    have hdistinct := h.distinct
    rw [hpending] at hordered hdistinct
    obtain ⟨hbefore, -⟩ := List.pairwise_cons.1 hordered
    obtain ⟨hfresh, hrest⟩ := List.pairwise_cons.1 hdistinct
    have hcame : without rest c.pending = [] :=
      without_of_subset fun u hu => by simp [hpending, hu]
    have hgone : without c.pending rest = [t] :=
      without_perm_cons (List.Perm.of_eq hpending) hfresh
    -- The pending timers stand in firing order, so the one in front is the first to fire.
    have hfirst : ∀ u ∈ c.pending, u = t ∨ t.before u = true := by
      intro u hu
      rw [hpending] at hu
      rcases List.mem_cons.1 hu with rfl | hu
      · exact .inl rfl
      · exact .inr (hbefore u hu)
    refine ⟨rfl, rfl, ?_, ⟨hwell, hrest⟩, ?_, ?_⟩ <;>
      simp only [Turn.came, Turn.gone, Turn.popped, Turn.cleared, hcame, hgone]
    · exact .popped limit (by simp [hpending]) hdue hfirst
    · rfl
    · simp [hpending]

/-- What a turn does. -/
theorem serves_of_serve? {c : Clock τ} (h : c.Sound) {call : Call τ} {turn : Turn τ}
    (hturn : c.serve? call = some turn) : Serves c call turn := by
  cases call with
  | schedule delay task =>
    obtain ⟨after, hafter, rfl⟩ := Option.map_eq_some_iff.1 hturn
    exact serves_schedule h hafter
  | popDue limit =>
    cases hturn
    exact serves_popDue h limit
  | advanceTo target =>
    cases hturn
    have hsame : without c.pending c.pending = [] := without_of_subset (List.Subset.refl _)
    have hlawful : Lawful c _ _ _ _ _ := .advanced target
    refine ⟨rfl, rfl, ?_, ⟨h.toWellFormed.advanceTo target, h.distinct⟩, ?_, ?_⟩ <;>
      simp only [Turn.came, Turn.gone, Turn.popped, Turn.cleared, advanceTo, hsame]
    · exact hlawful
    · rfl
    · simp
  | clear =>
    cases hturn
    have hlawful : Lawful c _ _ _ _ _ := .cleared
    refine ⟨rfl, rfl, ?_, ⟨.clear c, .nil⟩, ?_, ?_⟩ <;>
      simp only [Turn.came, Turn.gone, Turn.popped, Turn.cleared, clear, without_nil]
    · exact hlawful
    · rfl
    · simp [without]

namespace Lawful

variable {c : Clock τ} {call : Call τ} {task? : Option τ} {came gone : List (Timer τ)} {time : Nat}

/-- Time does not go back in a turn. -/
theorem now_le (h : Lawful c call task? came gone time) : c.now ≤ time := by
  cases h <;> omega

/-- What comes is numbered next and has the present or a later time as its deadline. -/
theorem came_eq (h : Lawful c call task? came gone time) :
    came = [] ∨ ∃ delay task, came = [⟨c.now + delay, c.scheduled, task⟩] := by
  cases h <;> simp

/-- What a pop takes off is the first of all pending timers. -/
theorem gone_eq {limit : Nat} (h : Lawful c (.popDue limit) task? came gone time) :
    came = [] ∧ (gone = [] ∨ ∃ t ∈ c.pending, gone = [t] ∧ t.fireAt ≤ time ∧
      ∀ u ∈ c.pending, u = t ∨ t.before u = true) := by
  cases h with
  | @popped _ t ht hdue hfirst =>
    exact ⟨rfl, .inr ⟨t, ht, rfl, Nat.le_max_right .., hfirst⟩⟩
  | waited => exact ⟨rfl, .inl rfl⟩

end Lawful

/-! ## What was popped -/

/-- The timer is over: it is before all that is pending and all that is still to be scheduled. -/
structure Passed (t : Timer τ) (c : Clock τ) : Prop where
  fireAt_le : t.fireAt ≤ c.now
  sequence_lt : t.sequence < c.scheduled
  before : ∀ u ∈ c.pending, t.before u = true

/-- What is over stays over. -/
theorem Passed.after {t : Timer τ} {c : Clock τ} {call : Call τ} {turn : Turn τ} (h : Passed t c)
    (hturn : Serves c call turn) : Passed t turn.after := by
  have hfire := h.fireAt_le
  have hsequence := h.sequence_lt
  have hnow := hturn.lawful.now_le
  have hscheduled := hturn.scheduled
  refine ⟨by omega, by omega, fun u hu => ?_⟩
  have hmem : u ∈ c.pending ++ turn.came := hturn.ledger.mem_iff.2 (by simp [hu])
  rcases List.mem_append.1 hmem with hold | hnew
  · exact h.before u hold
  · rcases hturn.lawful.came_eq with hnone | ⟨delay, task, hone⟩
    · simp [hnone] at hnew
    · rw [hone, List.mem_singleton] at hnew
      subst hnew
      rw [Timer.before_iff]
      dsimp only
      omega

/-- A pop takes one timer at most, and a timer that was popped is over. -/
theorem passed_of_popped {t : Timer τ} {c : Clock τ} (h : c.Sound) {call : Call τ} {turn : Turn τ}
    (hturn : Serves c call turn) (ht : t ∈ turn.popped) :
    turn.popped = [t] ∧ t ∈ c.pending ∧ Passed t turn.after := by
  have hlawful := hturn.lawful
  have hledger := hturn.ledger
  have hscheduled := hturn.scheduled
  unfold Turn.popped Turn.cleared at hledger
  unfold Turn.popped at ht ⊢
  rw [hturn.call_eq] at ht hledger ⊢
  cases call with
  | popDue limit =>
    dsimp only at ht hledger ⊢
    obtain ⟨hcame, hgone | ⟨t', hmem, hgone, hfire, hfirst⟩⟩ := hlawful.gone_eq
    · simp [hgone] at ht
    · rw [hgone, List.mem_singleton] at ht
      subst ht
      have hrest : c.pending.Perm (t :: turn.after.pending) := by simpa [hcame, hgone] using hledger
      have hdistinct := (hrest.pairwise_iff fun hne => Ne.symm hne).1 h.distinct
      obtain ⟨hfresh, -⟩ := List.pairwise_cons.1 hdistinct
      have hsequence := h.sequence_lt t hmem
      refine ⟨hgone, hmem, hfire, by omega, fun u hu => ?_⟩
      refine (hfirst u (hrest.mem_iff.2 (by simp [hu]))).resolve_left ?_
      rintro rfl
      exact hfresh u hu rfl
  | _ => cases ht

/-! ## Whole histories -/

/-- A clock goes through turns. -/
inductive Course : Clock τ → List (Turn τ) → Clock τ → Prop
  | nil (c : Clock τ) : Course c [] c
  | cons {c c' : Clock τ} {call : Call τ} {turn : Turn τ} {turns : List (Turn τ)}
    (hturn : Serves c call turn) (hrest : Course turn.after turns c') : Course c (turn :: turns) c'

/-- However a clock is called, it goes through turns, up to the call that cannot be served. -/
theorem course_serveAll {c : Clock τ} (h : c.Sound) (calls : List (Call τ)) :
    Course c (c.serveAll calls).1 (c.serveAll calls).2 := by
  induction calls generalizing c with
  | nil => exact .nil c
  | cons call calls ih =>
    unfold serveAll
    cases hserve : c.serve? call with
    | none => exact .nil c
    | some turn =>
      have hturn := serves_of_serve? h hserve
      exact .cons hturn (ih hturn.sound)

/-- The timers that came onto the agenda. -/
def cameIn (turns : List (Turn τ)) : List (Timer τ) := turns.flatMap Turn.came

/-- The timers that were popped. -/
def poppedIn (turns : List (Turn τ)) : List (Timer τ) := turns.flatMap Turn.popped

/-- The timers that were cleared. -/
def clearedIn (turns : List (Turn τ)) : List (Timer τ) := turns.flatMap Turn.cleared

namespace Course

variable {c c' : Clock τ} {turns : List (Turn τ)}

/-- A clock that was sound stays so. -/
theorem sound (h : Course c turns c') (hc : c.Sound) : c'.Sound := by
  induction h with
  | nil => exact hc
  | cons hturn _ ih => exact ih hturn.sound

/-- Every turn is lawful. -/
theorem lawful (h : Course c turns c') : ∀ turn ∈ turns,
    Lawful turn.before turn.call turn.task? turn.came turn.gone turn.after.now := by
  induction h with
  | nil => simp
  | cons hturn _ ih =>
    have hlawful := hturn.lawful
    rw [← hturn.call_eq, ← hturn.before_eq] at hlawful
    exact List.forall_mem_cons.2 ⟨hlawful, ih⟩

/-- Time goes on from where the course began. -/
theorem now_le (h : Course c turns c') : c.now ≤ c'.now ∧ ∀ turn ∈ turns, c.now ≤ turn.before.now := by
  induction h with
  | nil => simp
  | @cons c c' call turn turns hturn _ ih =>
    have hnow := hturn.lawful.now_le
    refine ⟨Nat.le_trans hnow ih.1, List.forall_mem_cons.2 ⟨?_, fun later hlater => ?_⟩⟩
    · exact Nat.le_of_eq (congrArg Clock.now hturn.before_eq).symm
    · exact Nat.le_trans hnow (ih.2 later hlater)

/-- Time never goes back. -/
theorem times (h : Course c turns c') :
    (turns.map (fun turn => turn.before.now) ++ [c'.now]).Pairwise (· ≤ ·) := by
  induction h with
  | nil => simp
  | @cons c c' call turn turns hturn hrest ih =>
    have hnow := hturn.lawful.now_le
    obtain ⟨hend, hlater⟩ := hrest.now_le
    rw [List.map_cons, List.cons_append, hturn.before_eq]
    refine List.pairwise_cons.2 ⟨fun time htime => ?_, ih⟩
    rw [List.mem_append, List.mem_map, List.mem_singleton] at htime
    rcases htime with ⟨later, hmem, rfl⟩ | rfl
    · exact Nat.le_trans hnow (hlater later hmem)
    · exact Nat.le_trans hnow hend

/-- Timers are numbered as they come. -/
theorem numbered (h : Course c turns c') : c'.scheduled = c.scheduled + (cameIn turns).length ∧
    (cameIn turns).map Timer.sequence = List.range' c.scheduled (cameIn turns).length := by
  induction h with
  | nil => simp [cameIn]
  | @cons c c' call turn turns hturn _ ih =>
    obtain ⟨hscheduled, hnumbers⟩ := ih
    have hafter := hturn.scheduled
    have hcame : turn.came.map Timer.sequence = List.range' c.scheduled turn.came.length := by
      rcases hturn.lawful.came_eq with hnone | ⟨delay, task, hone⟩
      · rw [hnone]
        rfl
      · rw [hone]
        rfl
    have hsplit : cameIn (turn :: turns) = turn.came ++ cameIn turns := List.flatMap_cons
    rw [hsplit, List.map_append, List.length_append, hcame, hnumbers, hafter]
    refine ⟨by omega, ?_⟩
    rw [← List.range'_append_1]

/-- What was there and what came is what was popped, what was cleared and what is left. -/
theorem ledger (h : Course c turns c') :
    (c.pending ++ cameIn turns).Perm (poppedIn turns ++ (clearedIn turns ++ c'.pending)) := by
  induction h with
  | nil => simp [cameIn, poppedIn, clearedIn]
  | @cons c c' call turn turns hturn _ ih =>
    simp only [cameIn, poppedIn, clearedIn, List.flatMap_cons] at ih ⊢
    have hturn := hturn.ledger.append_right (turns.flatMap Turn.came)
    simp only [List.append_assoc] at hturn ⊢
    refine hturn.trans (List.Perm.append_left _ ?_)
    exact (ih.append_left turn.cleared).trans (List.perm_append_comm_assoc ..)

/-- Whatever was over precedes what is popped later, and of that the earlier the later. -/
theorem ascending (h : Course c turns c') (hc : c.Sound) :
    (poppedIn turns).Pairwise (fun t u => t.before u = true) ∧
      ∀ t, Passed t c → ∀ u ∈ poppedIn turns, t.before u = true := by
  induction h with
  | nil => simp [poppedIn]
  | @cons c c' call turn turns hturn _ ih =>
    obtain ⟨hpairwise, hpassed⟩ := ih hturn.sound
    have hsplit : poppedIn (turn :: turns) = turn.popped ++ poppedIn turns := List.flatMap_cons
    rw [hsplit]
    refine ⟨List.pairwise_append.2 ⟨?_, hpairwise, fun t ht => ?_⟩, fun t ht u hu => ?_⟩
    · cases hpopped : turn.popped with
      | nil => exact .nil
      | cons t rest =>
        have hone := (passed_of_popped hc hturn (t := t) (by simp [hpopped])).1
        rw [← hpopped, hone]
        exact List.pairwise_singleton _ _
    · exact hpassed t (passed_of_popped hc hturn ht).2.2
    · rcases List.mem_append.1 hu with hu | hu
      · exact ht.before u (passed_of_popped hc hturn hu).2.1
      · exact hpassed t (ht.after hturn) u hu

end Course

/-- Every call is served, up to one for a deadline that is not representable. -/
theorem served_serveAll (c : Clock τ) (calls : List (Call τ)) :
    calls = (c.serveAll calls).1.map Turn.call ∨ ∃ delay task rest,
      calls = (c.serveAll calls).1.map Turn.call ++ .schedule delay task :: rest ∧
        Duration.limit ≤ (c.serveAll calls).2.now + delay := by
  induction calls generalizing c with
  | nil => exact .inl rfl
  | cons call calls ih =>
    unfold serveAll
    cases hserve : c.serve? call with
    | none =>
      obtain ⟨delay, task, rfl, hlate⟩ := serve?_eq_none_iff.1 hserve
      exact .inr ⟨delay, task, calls, rfl, hlate⟩
    | some turn =>
      have hcall : turn.call = call := by
        cases call with
        | schedule delay task =>
          obtain ⟨after, -, rfl⟩ := Option.map_eq_some_iff.1 hserve
          rfl
        | _ => cases hserve; rfl
      dsimp only
      rw [List.map_cons, hcall]
      rcases ih turn.after with hall | ⟨delay, task, rest, hsome, hlate⟩
      · exact .inl (congrArg (call :: ·) hall)
      · exact .inr ⟨delay, task, rest, congrArg (call :: ·) hsome, hlate⟩

/-- The next deadline is the earliest of all that are pending. -/
theorem WellFormed.nextDeadline?_eq_some_iff {c : Clock τ} (h : c.WellFormed) {time : Nat} :
    c.nextDeadline? = some time ↔
      (∃ t ∈ c.pending, t.fireAt = time) ∧ ∀ t ∈ c.pending, time ≤ t.fireAt := by
  unfold nextDeadline?
  cases hpending : c.pending with
  | nil => simp
  | cons t rest =>
    have hfirst : ∀ u ∈ t :: rest, t.fireAt ≤ u.fireAt := by
      intro u hu
      have hhead : c.pending.head? = some t := by rw [hpending]; rfl
      exact le_of_head h.ordered hhead (hpending ▸ hu)
    simp only [List.head?_cons, Option.map_some, Option.some.injEq]
    constructor
    · rintro rfl
      exact ⟨⟨t, List.mem_cons_self .., rfl⟩, hfirst⟩
    · rintro ⟨⟨u, hu, rfl⟩, hleast⟩
      exact Nat.le_antisymm (hfirst u hu) (hleast t (List.mem_cons_self ..))

/-- To take all that is due is to pop until nothing is due. -/
theorem takeDue_eq_popDue (c : Clock τ) :
    c.takeDue = match c.popDue c.now with
      | (none, _) => ([], c)
      | (some task, c') => (task :: c'.takeDue.1, c'.takeDue.2) := by
  obtain ⟨now, scheduled, pending⟩ := c
  unfold takeDue popDue
  cases pending with
  | nil => simp
  | cons t rest =>
    by_cases hdue : t.fireAt ≤ now <;> simp [hdue]

/-! ## The agenda -/

/-- What is known of a clock that has served calls from the start of time. -/
structure KeepsAgenda (calls : List (Call τ)) (turns : List (Turn τ)) (c : Clock τ) : Prop where
  /-- All calls were served, or all before the first with a deadline that is not representable. -/
  served : calls = turns.map Turn.call ∨ ∃ delay task rest,
    calls = turns.map Turn.call ++ .schedule delay task :: rest ∧ Duration.limit ≤ c.now + delay
  /-- A timer comes when it is scheduled, for the time of then and its delay. It goes when it is the
  first of all that are pending and due by the time that a pop asks for, or is cleared. -/
  lawful : ∀ turn ∈ turns,
    Lawful turn.before turn.call turn.task? turn.came turn.gone turn.after.now
  /-- Time never goes back. -/
  times : (turns.map (fun turn => turn.before.now) ++ [c.now]).Pairwise (· ≤ ·)
  /-- Timers are numbered in the order in which they were scheduled. -/
  numbered : (cameIn turns).map Timer.sequence = List.range (cameIn turns).length
  /-- A timer that was scheduled was popped, or cleared, or is pending: one of these, and once. -/
  ledger : (cameIn turns).Perm (poppedIn turns ++ (clearedIn turns ++ c.pending))
  /-- Timers are popped in the order of deadlines, and those of one deadline as they were scheduled,
  whatever was scheduled in between. -/
  ascending : (poppedIn turns).Pairwise fun t u => t.before u = true
  nextDeadline : ∀ time, c.nextDeadline? = some time ↔
    (∃ t ∈ c.pending, t.fireAt = time) ∧ ∀ t ∈ c.pending, time ≤ t.fireAt

/-- **A clock keeps an agenda**, whatever is asked of it, from the start of time on and at every later
point. -/
theorem timers_fire_in_order (calls : List (Call τ)) :
    KeepsAgenda calls ((initial : Clock τ).serveAll calls).1
      ((initial : Clock τ).serveAll calls).2 := by
  have hcourse := course_serveAll (Sound.initial (τ := τ)) calls
  have hnumbers := hcourse.numbered.2
  have hledger := hcourse.ledger
  refine ⟨served_serveAll initial calls, hcourse.lawful, hcourse.times, ?_, ?_,
    (hcourse.ascending .initial).1, fun time => ?_⟩
  · rw [hnumbers, List.range_eq_range']
    rfl
  · simpa [initial] using hledger
  · exact (hcourse.sound .initial).toWellFormed.nextDeadline?_eq_some_iff

/-- A pop for a time to come moves the time, and what is scheduled then comes later. -/
example : ((initial : Clock Nat).serveAll
    [.schedule 10 1, .schedule 5 2, .popDue 7, .schedule 5 3, .advanceTo 20, .popDue 9, .popDue 20,
      .popDue 20, .popDue 20]).1.map Turn.task? =
      [none, none, some 2, none, none, none, some 1, some 3, none] := by decide

end Dataflow.Clock
