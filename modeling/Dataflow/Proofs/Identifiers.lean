import Dataflow.Arena.Lemmas
import Mathlib.Data.Set.Card
import Mathlib.Logic.Function.Basic

/-!
# Identifiers are used once

To its users an arena is a finite map of identifiers to nodes that chooses the identifiers itself, and
never the same one twice (`Directory`). How it does so is not for them to know: indices are reused, and
what tells an identifier from the earlier ones of its index is the generation, which counts how often a
node was freed there.

So of an identifier whose generation is below that of its index nothing is ever heard again, whatever
is done with it (`isValid_serveAll_of_lt`). The generation of an index only rises, and the next
identifier has the very generation of its index, so it is none of those before it. Whatever calls are
made of an arena that was empty, they are answered as by a directory (`identifiers_used_once`).
-/

namespace Dataflow.Arena

variable {ν : Type}

/-! ## Histories of an arena -/

/-- A use of an arena. -/
inductive Call (ν : Type) where
  | alloc (node : ν)
  | free (slot : SlotId)
  | isValid (slot : SlotId)
  | get (slot : SlotId)
  /-- Overwrites the node that an identifier names, if it names one. -/
  | write (slot : SlotId) (node : ν)
  deriving DecidableEq

/-- What a use answers. -/
inductive Reply (ν : Type) where
  | slot (slot : SlotId)
  | node (node? : Option ν)
  | truth (holds : Bool)
  deriving DecidableEq

/-- What is taken out of its entry when an identifier is freed. -/
def taken (a : Arena ν) (slot : SlotId) : Option ν :=
  if a.isValid slot then (a.entries[slot.index]?).bind Entry.node? else none

/-- What is handed back is what the identifier named. -/
theorem taken_eq (a : Arena ν) (slot : SlotId) : a.taken slot = a.get? slot := by
  unfold taken
  by_cases hvalid : a.isValid slot = true
  · obtain ⟨n, hn⟩ := isValid_iff.1 hvalid
    rw [if_pos hvalid, hn, get?_eq_some_iff.1 hn]
    rfl
  · rw [if_neg hvalid]
    exact (Option.not_isSome_iff_eq_none.1 hvalid).symm

/-- Serves a call. What is freed is handed back. -/
def serve (a : Arena ν) : Call ν → Reply ν × Arena ν
  | .alloc node => (.slot a.nextSlot, a.alloc node)
  | .free slot => (.node (a.taken slot), a.release slot)
  | .isValid slot => (.truth (a.isValid slot), a)
  | .get slot => (.node (a.get? slot), a)
  | .write slot node => (.truth (a.isValid slot), a.set slot node)

/-- Serves calls, one after the other. Returns them with their answers, and the arena after them. -/
def serveAll (a : Arena ν) : List (Call ν) → List (Call ν × Reply ν) × Arena ν
  | [] => ([], a)
  | call :: calls =>
    let (reply, a) := a.serve call
    let (history, a) := a.serveAll calls
    ((call, reply) :: history, a)

/-- Whether a call has freed a node at an index. -/
def freed (i : Nat) : Call ν × Reply ν → Bool
  | (.free slot, .node node?) => node?.isSome && slot.index = i
  | _ => false

/-- How often a node was freed at an index. -/
def frees (i : Nat) (history : List (Call ν × Reply ν)) : Nat := history.countP (freed i)

/-! ## Directories -/

/-- A map of identifiers to nodes, and all identifiers that it has handed out. -/
structure Directory (ν : Type) where
  nodes : SlotId → Option ν
  issued : List SlotId

namespace Directory

/-- The directory without nodes. -/
def empty : Directory ν := ⟨fun _ => none, []⟩

/-- How a directory may answer a call, and what becomes of it. The only choice is that of a new
identifier. -/
inductive Step (d : Directory ν) : Call ν → Reply ν → Directory ν → Prop
  | alloc (node : ν) {slot : SlotId} (hnew : slot ∉ d.issued) :
    Step d (.alloc node) (.slot slot)
      ⟨Function.update d.nodes slot (some node), slot :: d.issued⟩
  | free (slot : SlotId) :
    Step d (.free slot) (.node (d.nodes slot)) { d with nodes := Function.update d.nodes slot none }
  | isValid (slot : SlotId) : Step d (.isValid slot) (.truth (d.nodes slot).isSome) d
  | get (slot : SlotId) : Step d (.get slot) (.node (d.nodes slot)) d
  | write {slot : SlotId} {old : ν} (node : ν) (hold : d.nodes slot = some old) :
    Step d (.write slot node) (.truth true)
      { d with nodes := Function.update d.nodes slot (some node) }
  | missed {slot : SlotId} (node : ν) (hnone : d.nodes slot = none) :
    Step d (.write slot node) (.truth false) d

/-- A history that a directory may have, and what it comes to. -/
inductive Runs : Directory ν → List (Call ν × Reply ν) → Directory ν → Prop
  | nil (d : Directory ν) : Runs d [] d
  | cons {d d₁ d₂ : Directory ν} {call : Call ν} {reply : Reply ν}
    {history : List (Call ν × Reply ν)} (hstep : d.Step call reply d₁) (hrest : Runs d₁ history d₂) :
    Runs d ((call, reply) :: history) d₂

end Directory

/-! ## Generations -/

/-- The generation of an index, which is zero as long as there is nothing. -/
def generationAt (a : Arena ν) (i : Nat) : Nat := (a.entries[i]?).elim 0 Entry.generation

/-- Nothing was freed yet in an empty arena. -/
theorem generationAt_empty (i : Nat) : (empty : Arena ν).generationAt i = 0 := by
  simp [generationAt, empty]

/-- The identifier of the next node has the generation of its index, reused or not. -/
theorem generationAt_nextSlot (a : Arena ν) :
    a.generationAt a.nextSlot.index = a.nextSlot.generation := by
  unfold nextSlot generationAt
  cases a.free with
  | nil => simp
  | cons i rest => rfl

/-- An identifier that names a node has the generation of its index. -/
theorem generationAt_of_get? {a : Arena ν} {slot : SlotId} {n : ν} (h : a.get? slot = some n) :
    a.generationAt slot.index = slot.generation := by
  simp [generationAt, get?_eq_some_iff.1 h]

/-- Filling or emptying an entry leaves its generation as it is. -/
@[simp] theorem generationAt_setNode (a : Arena ν) (index : Nat) (node? : Option ν) (i : Nat) :
    (a.setNode index node?).generationAt i = a.generationAt i := by
  simp only [generationAt, setNode, Array.getElem?_modify]
  by_cases hi : index = i
  · subst hi
    cases a.entries[index]? <;> simp
  · simp [hi]

/-- Overwriting a node leaves all generations as they are. -/
@[simp] theorem generationAt_set (a : Arena ν) (slot : SlotId) (n : ν) (i : Nat) :
    (a.set slot n).generationAt i = a.generationAt i := by
  unfold set
  split
  · exact generationAt_setNode ..
  · rfl

/-- A new node leaves all generations as they are: only freeing raises one. -/
@[simp] theorem generationAt_alloc (a : Arena ν) (n : ν) (i : Nat) :
    (a.alloc n).generationAt i = a.generationAt i := by
  unfold alloc
  -- The node fills a free entry, or else a new one at the end.
  split
  · exact generationAt_setNode ..
  · simp only [generationAt, Array.getElem?_push]
    by_cases hi : i = a.entries.size
    · simp [hi]
    · simp [hi]

/-- Freeing a node raises the generation of its index. -/
theorem generationAt_release (a : Arena ν) (slot : SlotId) (i : Nat) :
    (a.release slot).generationAt i =
      a.generationAt i + if a.isValid slot = true ∧ slot.index = i then 1 else 0 := by
  unfold release
  by_cases hvalid : a.isValid slot = true
  · obtain ⟨n, hn⟩ := isValid_iff.1 hvalid
    simp only [hvalid, if_true, true_and, generationAt, Array.getElem?_modify]
    by_cases hi : slot.index = i
    · subst hi
      simp [get?_eq_some_iff.1 hn]
    · simp [hi]
  · simp [hvalid]

/-- No call lowers a generation. -/
theorem generationAt_le_serve (a : Arena ν) (call : Call ν) (i : Nat) :
    a.generationAt i ≤ (a.serve call).2.generationAt i := by
  cases call with
  | alloc node => exact (generationAt_alloc a node i).ge
  | free slot => exact (generationAt_release a slot i).ge.trans' (Nat.le_add_right ..)
  | write slot node => exact (generationAt_set a slot node i).ge
  | _ => exact Nat.le_refl _

/-- A history lowers no generation. -/
theorem generationAt_le_serveAll (a : Arena ν) (calls : List (Call ν)) (i : Nat) :
    a.generationAt i ≤ (a.serveAll calls).2.generationAt i := by
  induction calls generalizing a with
  | nil => exact Nat.le_refl _
  | cons call calls ih => exact (generationAt_le_serve a call i).trans (ih _)

/-- What names a node is of the generation of its index. -/
theorem isValid_eq_false_of_lt {a : Arena ν} {slot : SlotId}
    (h : slot.generation < a.generationAt slot.index) : a.isValid slot = false := by
  apply Bool.eq_false_iff.2
  intro hvalid
  obtain ⟨n, hn⟩ := isValid_iff.1 hvalid
  have hgeneration := generationAt_of_get? hn
  omega

/-- Nothing is heard again of an identifier of an earlier generation. -/
theorem isValid_serveAll_of_lt {a : Arena ν} {slot : SlotId}
    (h : slot.generation < a.generationAt slot.index) (calls : List (Call ν)) :
    (a.serveAll calls).2.isValid slot = false :=
  isValid_eq_false_of_lt (Nat.lt_of_lt_of_le h (generationAt_le_serveAll a calls slot.index))

/-! ## Arenas as directories -/

/-- A new node is added to the map under the next identifier, and nothing else changes. -/
theorem get?_alloc {a : Arena ν} (h : a.WellFormed) (n : ν) :
    (a.alloc n).get? = Function.update a.get? a.nextSlot (some n) := by
  apply Function.eq_update_iff.2
  exact ⟨get?_alloc_self h n, fun slot hslot => get?_alloc_of_ne h hslot n⟩

/-- A freed identifier is taken out of the map, if it was there at all. -/
theorem get?_release (a : Arena ν) (slot : SlotId) :
    (a.release slot).get? = Function.update a.get? slot none := by
  apply Function.eq_update_iff.2
  exact ⟨get?_release_self a slot, fun other hother => get?_release_of_ne hother⟩

/-- Overwriting a node replaces it in the map. -/
theorem get?_set {a : Arena ν} {slot : SlotId} {old : ν} (h : a.get? slot = some old) (n : ν) :
    (a.set slot n).get? = Function.update a.get? slot (some n) := by
  apply Function.eq_update_iff.2
  exact ⟨get?_set_self h n, fun other hother => get?_set_of_ne hother n⟩

/-- An arena shows the nodes of a directory, and what the directory has handed out is in use or of an
earlier generation. -/
structure Shows (a : Arena ν) (d : Directory ν) : Prop where
  wellFormed : a.WellFormed
  nodes : d.nodes = a.get?
  issued : ∀ slot ∈ d.issued, slot.index < a.entries.size ∧
    (slot.generation < a.generationAt slot.index ∨ a.isValid slot = true)

/-- The empty arena shows the empty directory. -/
theorem Shows.empty : (empty : Arena ν).Shows .empty where
  wellFormed := .empty
  nodes := by
    funext slot
    simp [Directory.empty, Arena.empty, get?]
  issued := List.forall_mem_nil _

/-- The identifier of a new node is none of those handed out. -/
theorem Shows.nextSlot_not_mem {a : Arena ν} {d : Directory ν} (h : a.Shows d) :
    a.nextSlot ∉ d.issued := by
  intro hmem
  rcases (h.issued _ hmem).2 with hlt | hvalid
  · have hgeneration := generationAt_nextSlot a
    omega
  · obtain ⟨n, hn⟩ := isValid_iff.1 hvalid
    rw [get?_nextSlot h.wellFormed] at hn
    cases hn

/-- What has been handed out stays in use or of an earlier generation, whatever is called. -/
theorem isValid_serve_or_lt {a : Arena ν} (hwell : a.WellFormed) {slot : SlotId}
    (hvalid : a.isValid slot = true) (call : Call ν) :
    slot.generation < (a.serve call).2.generationAt slot.index ∨
      (a.serve call).2.isValid slot = true := by
  obtain ⟨n, hn⟩ := isValid_iff.1 hvalid
  cases call with
  | alloc node =>
    have hne : slot ≠ a.nextSlot := by
      rintro rfl
      rw [get?_nextSlot hwell] at hn
      cases hn
    exact .inr (isValid_iff.2 ⟨n, (get?_alloc_of_ne hwell hne node).trans hn⟩)
  | free other =>
    by_cases hslot : slot = other
    · subst hslot
      left
      -- Freeing the identifier itself raises the generation of its index above its own.
      have hraised := generationAt_release a slot slot.index
      have hgeneration := generationAt_of_get? hn
      rw [if_pos ⟨hvalid, rfl⟩] at hraised
      show slot.generation < (a.release slot).generationAt slot.index
      omega
    · exact .inr (isValid_iff.2 ⟨n, (get?_release_of_ne hslot).trans hn⟩)
  | write other node =>
    right
    by_cases hslot : slot = other
    · subst hslot
      exact isValid_iff.2 ⟨node, get?_set_self hn node⟩
    · exact isValid_iff.2 ⟨n, (get?_set_of_ne hslot node).trans hn⟩
  | _ => exact .inr hvalid

/-- Entries are never given up: an index that was handed out once stays. -/
theorem size_le_serve (a : Arena ν) (call : Call ν) :
    a.entries.size ≤ (a.serve call).2.entries.size := by
  cases call with
  | alloc node =>
    show _ ≤ (a.alloc node).entries.size
    unfold alloc
    split <;> simp [setNode]
  | free slot =>
    show _ ≤ (a.release slot).entries.size
    unfold release
    split <;> simp
  | write slot node =>
    show _ ≤ (a.set slot node).entries.size
    unfold set
    split <;> simp [setNode]
  | _ => exact Nat.le_refl _

/-- Every call keeps an arena well-formed. -/
theorem WellFormed.serve {a : Arena ν} (h : a.WellFormed) (call : Call ν) :
    (a.serve call).2.WellFormed := by
  cases call with
  | alloc node => exact h.alloc node
  | free slot => exact h.release slot
  | write slot node => exact h.set slot node
  | _ => exact h

/-- What a directory has handed out goes on being accounted for. -/
theorem Shows.issued_serve {a : Arena ν} {d : Directory ν} (h : a.Shows d) (call : Call ν) :
    ∀ slot ∈ d.issued, slot.index < (a.serve call).2.entries.size ∧
      (slot.generation < (a.serve call).2.generationAt slot.index ∨
        (a.serve call).2.isValid slot = true) := by
  intro slot hmem
  obtain ⟨hindex, hstatus⟩ := h.issued slot hmem
  refine ⟨hindex.trans_le (size_le_serve a call), ?_⟩
  rcases hstatus with hlt | hvalid
  · exact .inl (hlt.trans_le (generationAt_le_serve a call slot.index))
  · exact isValid_serve_or_lt h.wellFormed hvalid call

/-- An arena answers a call as a directory may. -/
theorem Shows.serve {a : Arena ν} {d : Directory ν} (h : a.Shows d) (call : Call ν) :
    ∃ d', d.Step call (a.serve call).1 d' ∧ (a.serve call).2.Shows d' := by
  have hwell := h.wellFormed.serve call
  have hissued := h.issued_serve call
  obtain ⟨nodes, issued⟩ := d
  obtain rfl : nodes = a.get? := h.nodes
  cases call with
  | alloc node =>
    refine ⟨_, .alloc node h.nextSlot_not_mem, hwell, (get?_alloc h.wellFormed node).symm, ?_⟩
    intro slot hmem
    -- The new identifier is in use; the others are accounted for as before.
    rcases List.mem_cons.1 hmem with rfl | hmem
    · have hself := get?_alloc_self h.wellFormed node
      have hentry := get?_eq_some_iff.1 hself
      exact ⟨(Array.getElem?_eq_some_iff.1 hentry).1, .inr (isValid_iff.2 ⟨node, hself⟩)⟩
    · exact hissued slot hmem
  | free slot =>
    rw [Arena.serve, taken_eq]
    exact ⟨_, .free slot, hwell, (get?_release a slot).symm, hissued⟩
  | isValid slot => exact ⟨_, .isValid slot, h⟩
  | get slot => exact ⟨_, .get slot, h⟩
  | write slot node =>
    cases hold : a.get? slot with
    | none =>
      have hreply : a.serve (.write slot node) = (.truth false, a) := by
        simp [Arena.serve, Arena.isValid, hold, get?_set_of_none hold]
      rw [hreply]
      exact ⟨_, .missed node hold, h⟩
    | some old =>
      have hreply : a.serve (.write slot node) = (.truth true, a.set slot node) := by
        simp [Arena.serve, Arena.isValid, hold]
      rw [hreply] at hwell hissued ⊢
      exact ⟨_, .write node hold, hwell, (get?_set hold node).symm, hissued⟩

/-- An arena answers calls, one after the other, as a directory may. -/
theorem Shows.serveAll {a : Arena ν} {d : Directory ν} (h : a.Shows d) (calls : List (Call ν)) :
    ∃ d', d.Runs (a.serveAll calls).1 d' ∧ (a.serveAll calls).2.Shows d' := by
  induction calls generalizing a d with
  | nil => exact ⟨d, .nil d, h⟩
  | cons call calls ih =>
    obtain ⟨d₁, hstep, h₁⟩ := h.serve call
    obtain ⟨d₂, hrest, h₂⟩ := ih h₁
    exact ⟨d₂, .cons hstep hrest, h₂⟩

/-- Whatever an answer has given out, the directory has issued. -/
theorem Directory.Runs.mem_issued {d d' : Directory ν} {history : List (Call ν × Reply ν)}
    (h : d.Runs history d') {slot : SlotId}
    (hmem : slot ∈ d.issued ∨ ∃ node, (.alloc node, .slot slot) ∈ history) : slot ∈ d'.issued := by
  induction h with
  | nil d =>
    rcases hmem with hmem | ⟨node, hmem⟩
    · exact hmem
    · cases hmem
  | cons hstep _ ih =>
    apply ih
    rcases hmem with hmem | ⟨node, hmem⟩
    · left
      cases hstep with
      | alloc => exact List.mem_cons_of_mem _ hmem
      | _ => exact hmem
    · rcases List.mem_cons.1 hmem with heq | hmem
      · cases heq
        cases hstep
        exact .inl (List.mem_cons_self ..)
      · exact .inr ⟨node, hmem⟩

/-! ## Counting and listing -/

/-- The generation of an index counts how often a node was freed there. -/
theorem generationAt_serveAll (a : Arena ν) (calls : List (Call ν)) (i : Nat) :
    (a.serveAll calls).2.generationAt i = a.generationAt i + frees i (a.serveAll calls).1 := by
  induction calls generalizing a with
  | nil => rfl
  | cons call calls ih =>
    -- Only freeing an identifier in use raises a generation, and only that is counted.
    have hcall : (a.serve call).2.generationAt i =
        a.generationAt i + frees i [(call, (a.serve call).1)] := by
      cases call with
      | alloc node => exact generationAt_alloc a node i
      | write slot node => exact generationAt_set a slot node i
      | free slot =>
        refine (generationAt_release a slot i).trans (congrArg _ ?_)
        simp only [serve, frees, freed, taken_eq, List.countP_singleton, isValid]
        by_cases hi : slot.index = i
        · by_cases hsome : (a.get? slot).isSome = true <;> simp [hi, hsome]
        · simp [hi]
      | _ => rfl
    have hcons : frees i (a.serveAll (call :: calls)).1 =
        frees i [(call, (a.serve call).1)] + frees i ((a.serve call).2.serveAll calls).1 := by
      unfold frees
      rw [← List.countP_append]
      rfl
    rw [hcons]
    refine (ih (a.serve call).2).trans ?_
    omega

/-- The size is the number of identifiers in use. -/
theorem WellFormed.size_eq_ncard {a : Arena ν} (h : a.WellFormed) :
    a.size = {slot | a.isValid slot = true}.ncard := by
  -- Listed identifiers have different indices, so they are different.
  have hnodup : a.slots.Nodup := by
    refine (List.pairwise_map.2 (a.pairwise_toList.imp fun {x y} hxy heq => ?_))
    rw [heq] at hxy
    exact Nat.lt_irrefl _ hxy
  have hset : {slot | a.isValid slot = true} = (a.slots.toFinset : Set SlotId) := by
    ext slot
    simp [mem_slots]
  rw [hset, Set.ncard_coe_finset, List.toFinset_card_of_nodup hnodup, h.length_slots]

/-! ## The whole account -/

/-- What is known of an arena that has come to be from nothing by a history of calls. -/
structure Accounts (a : Arena ν) (history : List (Call ν × Reply ν)) : Prop where
  /-- A directory may have had the history, and would come to the same nodes. -/
  directory : ∃ d, Directory.empty.Runs history d ∧ d.nodes = a.get?
  /-- An identifier is in use as long as its entry is filled and of its generation. -/
  inUse : ∀ slot, a.isValid slot = true ↔ ∃ entry, a.entries[slot.index]? = some entry ∧
    entry.generation = slot.generation ∧ entry.node?.isSome = true
  /-- To free what names nothing is to do nothing. -/
  stale : ∀ slot, a.get? slot = none → a.release slot = a
  /-- What is freed names nothing ever after. -/
  retired : ∀ slot, a.isValid slot = true →
    ∀ calls, ((a.release slot).serveAll calls).2.isValid slot = false
  size : a.size = {slot | a.isValid slot = true}.ncard
  isEmpty : a.isEmpty = true ↔ ∀ slot, a.isValid slot = false
  /-- The list has the nodes with their identifiers, each once, in the order of indices. -/
  listed : ∀ slot n, (slot, n) ∈ a.toList ↔ a.get? slot = some n
  ordered : a.toList.Pairwise fun x y => x.1.index < y.1.index
  /-- Indices and generations fit a word as long as there are fewer indices than words, and no index
  was freed as often as there are words. -/
  words : ∀ word, a.entries.size < word → (∀ i, frees i history < word) →
    (∀ i, a.generationAt i < word) ∧ ∀ node slot, (.alloc node, .slot slot) ∈ history →
      slot.index < word ∧ slot.generation < word

/-- An identifier is in use if its entry is filled and of the same generation. -/
theorem isValid_iff_entry {a : Arena ν} {slot : SlotId} :
    a.isValid slot = true ↔ ∃ entry, a.entries[slot.index]? = some entry ∧
      entry.generation = slot.generation ∧ entry.node?.isSome = true := by
  simp only [isValid_iff, get?_eq_some_iff]
  constructor
  · rintro ⟨n, hn⟩
    exact ⟨_, hn, rfl, rfl⟩
  · rintro ⟨⟨generation, node?⟩, hentry, rfl, hsome⟩
    obtain ⟨n, rfl⟩ := Option.isSome_iff_exists.1 hsome
    exact ⟨n, hentry⟩

/-- Freeing an identifier that is not in use changes nothing. -/
theorem release_of_none {a : Arena ν} {slot : SlotId} (h : a.get? slot = none) :
    a.release slot = a := by
  simp [release, isValid, h]

/-- Freeing leaves an identifier one generation behind its index, so it never names anything again. -/
theorem isValid_release_serveAll {a : Arena ν} {slot : SlotId} (h : a.isValid slot = true)
    (calls : List (Call ν)) : ((a.release slot).serveAll calls).2.isValid slot = false := by
  obtain ⟨n, hn⟩ := isValid_iff.1 h
  have hgeneration := generationAt_of_get? hn
  have hraised := generationAt_release a slot slot.index
  rw [if_pos ⟨h, rfl⟩] at hraised
  exact isValid_serveAll_of_lt (by omega) calls

/-- An arena is empty when no identifier is in use. -/
theorem WellFormed.isEmpty_iff {a : Arena ν} (h : a.WellFormed) :
    a.isEmpty = true ↔ ∀ slot, a.isValid slot = false := by
  have hempty : a.isEmpty = true ↔ a.slots = [] := by
    rw [← List.length_eq_zero_iff, h.length_slots]
    simp [isEmpty, size]
  rw [hempty, List.eq_nil_iff_forall_not_mem]
  refine forall_congr' fun slot => ?_
  rw [mem_slots, ← isValid_iff, Bool.not_eq_true]

/-- **Whatever an arena is called on to do, it does as a directory would: it never gives out an
identifier twice.** -/
theorem identifiers_used_once (calls : List (Call ν)) :
    ((empty : Arena ν).serveAll calls).2.Accounts ((empty : Arena ν).serveAll calls).1 := by
  obtain ⟨d, hruns, hshows⟩ := Shows.empty.serveAll calls
  have hfrees := generationAt_serveAll (empty : Arena ν) calls
  have hwell := hshows.wellFormed
  refine ⟨⟨d, hruns, hshows.nodes⟩, fun _ => isValid_iff_entry, fun _ => release_of_none,
    fun _ => isValid_release_serveAll, hwell.size_eq_ncard, hwell.isEmpty_iff,
    fun _ _ => mem_toList, pairwise_toList _, fun word hsize hword => ?_⟩
  have hgenerations : ∀ i, ((empty : Arena ν).serveAll calls).2.generationAt i < word := by
    intro i
    rw [hfrees, generationAt_empty, Nat.zero_add]
    exact hword i
  refine ⟨hgenerations, fun node slot hmem => ?_⟩
  obtain ⟨hindex, hstatus⟩ := hshows.issued slot (hruns.mem_issued (.inr ⟨node, hmem⟩))
  refine ⟨hindex.trans hsize, ?_⟩
  have hgeneration := hgenerations slot.index
  -- An identifier is of the generation of its index or an earlier one, so it fits where that does.
  rcases hstatus with hlt | hvalid
  · exact hlt.trans hgeneration
  · obtain ⟨n, hn⟩ := isValid_iff.1 hvalid
    rwa [generationAt_of_get? hn] at hgeneration

example : ((empty : Arena Unit).serveAll
    [.alloc (), .free ⟨0, 0⟩, .alloc (), .get ⟨0, 0⟩, .free ⟨0, 0⟩]).1.map Prod.snd =
      [.slot ⟨0, 0⟩, .node (some ()), .slot ⟨0, 1⟩, .node none, .node none] := by decide

end Dataflow.Arena
