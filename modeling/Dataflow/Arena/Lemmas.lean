import Dataflow.Arena

/-!
# The arena as a map

The view of an arena is `get?`. In a well-formed arena, and every arena made by its operations is
one, adding, replacing and removing a node changes the view at that node's identifier and nowhere
else, and the identifier of a new node is one that named nothing before.
-/

namespace Dataflow.Arena

variable {ν : Type}

/-- The free list names the free indices, each once, and the number of nodes is right. -/
structure WellFormed (a : Arena ν) : Prop where
  free_nodup : a.free.Nodup
  mem_free_iff : ∀ i, i ∈ a.free ↔ ∃ e, a.entries[i]? = some e ∧ e.node? = none
  live_eq : a.live = a.entries.countP fun e => e.node?.isSome

/-! ## The view -/

/-- A node is found by its index if the generation there is the same. -/
theorem get?_eq_some_iff {a : Arena ν} {slot : SlotId} {n : ν} :
    a.get? slot = some n ↔ a.entries[slot.index]? = some ⟨slot.generation, some n⟩ := by
  unfold get?
  cases h : a.entries[slot.index]? with
  | none => simp
  | some e =>
    obtain ⟨generation, node?⟩ := e
    by_cases hg : generation = slot.generation <;> simp [hg]

/-- A lookup depends only on the entry at the index. -/
theorem get?_congr {a b : Arena ν} {slot : SlotId}
    (h : a.entries[slot.index]? = b.entries[slot.index]?) : a.get? slot = b.get? slot := by
  simp only [get?, h]

/-- An identifier is valid as long as there is a node to be found. -/
@[simp] theorem isValid_iff {a : Arena ν} {slot : SlotId} :
    a.isValid slot = true ↔ ∃ n, a.get? slot = some n := by
  simp [isValid, Option.isSome_iff_exists]

/-- To write an entry does not touch the others. -/
theorem get?_setNode_of_ne {a : Arena ν} {slot : SlotId} {i : Nat} (node? : Option ν)
    (h : i ≠ slot.index) : (a.setNode i node?).get? slot = a.get? slot := by
  apply get?_congr
  simp only [setNode]
  rw [Array.getElem?_modify, if_neg h]

/-! ## Replacing -/

/-- What is set is found. -/
theorem get?_set_self {a : Arena ν} {slot : SlotId} {old : ν} (h : a.get? slot = some old) (n : ν) :
    (a.set slot n).get? slot = some n := by
  have hv : a.isValid slot = true := isValid_iff.2 ⟨old, h⟩
  rw [set, if_pos hv, get?_eq_some_iff, setNode, Array.getElem?_modify, if_pos rfl,
    get?_eq_some_iff.1 h]
  rfl

/-- An identifier that is not valid sets nothing. -/
theorem get?_set_of_none {a : Arena ν} {slot : SlotId} (h : a.get? slot = none) (n : ν) :
    a.set slot n = a := by
  simp [set, isValid, h]

/-- To set one node does not touch the others, nor what is found with another generation. -/
theorem get?_set_of_ne {a : Arena ν} {slot other : SlotId} (h : other ≠ slot) (n : ν) :
    (a.set slot n).get? other = a.get? other := by
  unfold set
  split
  · rename_i hv
    obtain ⟨old, hold⟩ := isValid_iff.1 hv
    by_cases hi : slot.index = other.index
    · -- the same index with another generation
      have hg : other.generation ≠ slot.generation := fun hg =>
        h (by cases other; cases slot; simp_all)
      have hold := get?_eq_some_iff.1 hold
      rw [hi] at hold
      have : ∀ b : Arena ν, ∀ node?, b.entries[other.index]? = some ⟨slot.generation, node?⟩ →
          b.get? other = none := by
        intro b node? hb
        simp [get?, hb, Ne.symm hg]
      rw [this a _ hold, this _ (some n)]
      simp only [setNode]
      rw [Array.getElem?_modify, if_pos hi, hold]
      rfl
    · exact get?_setNode_of_ne _ hi
  · rfl

/-! ## Adding -/

/-- The entry that a new node goes to is free or does not exist yet. -/
theorem get?_nextSlot {a : Arena ν} (h : a.WellFormed) : a.get? a.nextSlot = none := by
  cases hf : a.free with
  | nil => simp [nextSlot, hf, get?]
  | cons i free =>
    obtain ⟨e, he, hn⟩ := (h.mem_free_iff i).1 (by simp [hf])
    simp [nextSlot, hf, get?, he, hn]

/-- A node that is added is found by the identifier that was to come next. -/
theorem get?_alloc_self {a : Arena ν} (h : a.WellFormed) (n : ν) :
    (a.alloc n).get? a.nextSlot = some n := by
  rw [get?_eq_some_iff]
  cases hf : a.free with
  | nil => simp [nextSlot, alloc, hf]
  | cons i free =>
    obtain ⟨e, he, -⟩ := (h.mem_free_iff i).1 (by simp [hf])
    simp [nextSlot, alloc, setNode, hf, he, Array.getElem?_modify]

/-- To add a node does not touch those that are there. -/
theorem get?_alloc_of_ne {a : Arena ν} (h : a.WellFormed) {slot : SlotId} (hne : slot ≠ a.nextSlot)
    (n : ν) : (a.alloc n).get? slot = a.get? slot := by
  cases hf : a.free with
  | nil =>
    have hs : a.nextSlot = ⟨a.entries.size, 0⟩ := by simp [nextSlot, hf]
    simp only [alloc, hf, get?, Array.getElem?_push]
    split
    · rename_i hi
      have hg : (0 : Nat) ≠ slot.generation := fun hg =>
        hne (by rw [hs]; cases slot; simp_all)
      simp [hi, hg]
    · rfl
  | cons i free =>
    obtain ⟨e, he, hn⟩ := (h.mem_free_iff i).1 (by simp [hf])
    have hs : a.nextSlot = ⟨i, e.generation⟩ := by simp [nextSlot, hf, he]
    simp only [alloc, hf, setNode, get?, Array.getElem?_modify]
    split
    · rename_i hi
      have hg : e.generation ≠ slot.generation := fun hg =>
        hne (by rw [hs]; cases slot; simp_all)
      subst hi
      simp [he, hg]
    · rfl

/-! ## Removing -/

/-- A released identifier finds nothing. -/
theorem get?_release_self (a : Arena ν) (slot : SlotId) : (a.release slot).get? slot = none := by
  unfold release
  split
  · rename_i hv
    obtain ⟨n, hn⟩ := isValid_iff.1 hv
    have := get?_eq_some_iff.1 hn
    simp [get?, Array.getElem?_modify, this]
  · rename_i hv
    simpa [isValid] using hv

/-- To release one node does not touch the others. -/
theorem get?_release_of_ne {a : Arena ν} {slot other : SlotId} (h : other ≠ slot) :
    (a.release slot).get? other = a.get? other := by
  unfold release
  split
  · rename_i hv
    obtain ⟨n, hn⟩ := isValid_iff.1 hv
    by_cases hi : slot.index = other.index
    · -- the same index with another generation, which named nothing and goes on naming nothing
      have hg : slot.generation ≠ other.generation := fun hg =>
        h (by cases other; cases slot; simp_all)
      have hn := get?_eq_some_iff.1 hn
      rw [hi] at hn
      simp [get?, Array.getElem?_modify, hi, hn, hg]
    · apply get?_congr
      simp [Array.getElem?_modify, hi]
  · rfl

/-! ## Well-formedness -/

/-- The number of entries that hold a node. -/
def occupied (entries : Array (Entry ν)) : Nat := entries.countP fun e => e.node?.isSome

/-- An entry that is changed is counted anew. -/
theorem occupied_modify {entries : Array (Entry ν)} {i : Nat} {e : Entry ν}
    (h : entries[i]? = some e) (f : Entry ν → Entry ν) :
    occupied (entries.modify i f) =
      (occupied entries - if e.node?.isSome then 1 else 0) +
        if (f e).node?.isSome then 1 else 0 := by
  obtain ⟨hi, he⟩ := Array.getElem?_eq_some_iff.1 h
  have hm : entries.modify i f = entries.set i (f e) := by
    ext j hj hj'
    · simp
    · simp only [Array.getElem_modify, Array.getElem_set]
      split <;> simp_all
  rw [hm]
  unfold occupied
  rw [Array.countP_set, he]

theorem occupied_pos {entries : Array (Entry ν)} {i : Nat} {e : Entry ν}
    (h : entries[i]? = some e) (hn : e.node?.isSome = true) : 0 < occupied entries :=
  Array.countP_pos_iff.2 ⟨e, Array.mem_of_getElem? h, hn⟩

/-- An arena without entries has nothing free and nothing in use. -/
theorem WellFormed.empty : (empty : Arena ν).WellFormed :=
  ⟨List.nodup_nil, by simp [Arena.empty], rfl⟩

/-- To replace a node leaves the free list and the count as they are. -/
theorem WellFormed.set {a : Arena ν} (h : a.WellFormed) (slot : SlotId) (n : ν) :
    (a.set slot n).WellFormed := by
  unfold Arena.set
  split
  · rename_i hv
    obtain ⟨old, hold⟩ := isValid_iff.1 hv
    have hold := get?_eq_some_iff.1 hold
    refine ⟨h.free_nodup, fun i => ?_, ?_⟩
    · simp only [setNode, Array.getElem?_modify]
      split
      · rename_i hi
        subst hi
        rw [h.mem_free_iff, hold]
        simp
      · exact h.mem_free_iff i
    · have : occupied (a.setNode slot.index (some n)).entries = occupied a.entries := by
        have := occupied_pos hold rfl
        simp only [setNode, occupied_modify hold]
        simp only [Option.isSome_some, if_true]
        omega
      exact h.live_eq.trans this.symm
  · exact h

/-- To add a node takes the first free entry, or a new one if none is free. -/
theorem WellFormed.alloc {a : Arena ν} (h : a.WellFormed) (n : ν) : (a.alloc n).WellFormed := by
  unfold Arena.alloc
  split
  · rename_i i free hf
    have hnodup := h.free_nodup
    rw [hf] at hnodup
    obtain ⟨e, he, hn⟩ := (h.mem_free_iff i).1 (by simp [hf])
    refine ⟨(List.nodup_cons.1 hnodup).2, fun j => ?_, ?_⟩
    · simp only [setNode, Array.getElem?_modify]
      split
      · rename_i hj
        subst hj
        simp [he, (List.nodup_cons.1 hnodup).1]
      · rename_i hj
        rw [← h.mem_free_iff, hf, List.mem_cons]
        simp [Ne.symm hj]
    · have : occupied (a.setNode i (some n)).entries = occupied a.entries + 1 := by
        simp [setNode, occupied_modify he, hn]
      show a.live + 1 = occupied _
      rw [this, h.live_eq]
      rfl
  · rename_i hf
    refine ⟨h.free_nodup, fun j => ?_, ?_⟩
    · rw [h.mem_free_iff]
      simp only [Array.getElem?_push]
      split
      · rename_i hj
        simp [hj]
      · rfl
    · show a.live + 1 = _
      rw [h.live_eq, Array.countP_push]
      rfl

/-- A released entry becomes the first free one. -/
theorem WellFormed.release {a : Arena ν} (h : a.WellFormed) (slot : SlotId) :
    (a.release slot).WellFormed := by
  unfold Arena.release
  split
  · rename_i hv
    obtain ⟨old, hold⟩ := isValid_iff.1 hv
    have hold := get?_eq_some_iff.1 hold
    -- An entry in use is not free yet, so that no entry is free twice.
    have hfree : slot.index ∉ a.free := fun hm => by
      obtain ⟨e, he, hn⟩ := (h.mem_free_iff _).1 hm
      rw [hold] at he
      cases he
      simp at hn
    refine ⟨List.nodup_cons.2 ⟨hfree, h.free_nodup⟩, fun i => ?_, ?_⟩
    · rw [List.mem_cons, Array.getElem?_modify]
      split
      · rename_i hi
        subst hi
        simp [hold]
      · rename_i hi
        rw [h.mem_free_iff]
        simp [Ne.symm hi]
    · show a.live - 1 = occupied _
      rw [occupied_modify hold, h.live_eq]
      simp [occupied]
  · exact h

/-! ## The list of nodes -/

/-- The list has exactly the nodes that can be found. -/
theorem mem_toList {a : Arena ν} {slot : SlotId} {n : ν} :
    (slot, n) ∈ a.toList ↔ a.get? slot = some n := by
  rw [get?_eq_some_iff, toList, List.mem_filterMap]
  constructor
  · rintro ⟨⟨⟨generation, node?⟩, index⟩, hmem, hsome⟩
    obtain ⟨node, rfl, heq⟩ := Option.map_eq_some_iff.1 hsome
    cases heq
    exact Array.getElem?_toList ▸ List.mem_zipIdx_iff_getElem?.1 hmem
  · intro h
    exact ⟨(⟨slot.generation, some n⟩, slot.index),
      List.mem_zipIdx_iff_getElem?.2 (Array.getElem?_toList ▸ h), rfl⟩

/-- The list of nodes runs through the indices upwards. -/
theorem pairwise_toList (a : Arena ν) :
    a.toList.Pairwise fun x y => x.1.index < y.1.index := by
  have hindices : a.entries.toList.zipIdx.Pairwise fun x y => x.2 < y.2 := by
    rw [← List.pairwise_map (f := Prod.snd), List.zipIdx_map_snd]
    exact List.pairwise_lt_range'
  refine hindices.filterMap _ fun x y hxy x' hx' y' hy' => ?_
  obtain ⟨n, -, rfl⟩ := Option.map_eq_some_iff.1 hx'
  obtain ⟨m, -, rfl⟩ := Option.map_eq_some_iff.1 hy'
  exact hxy

/-- The slots are the identifiers that name a node. -/
theorem mem_slots {a : Arena ν} {slot : SlotId} : slot ∈ a.slots ↔ ∃ n, a.get? slot = some n := by
  simp only [slots, List.mem_map, Prod.exists, exists_and_right, exists_eq_right, mem_toList]

/-- There are as many slots as nodes. -/
theorem WellFormed.length_slots {a : Arena ν} (h : a.WellFormed) : a.slots.length = a.size := by
  have hentries : a.entries.toList.countP (fun entry => entry.node?.isSome) =
      a.entries.toList.zipIdx.countP ((fun entry => entry.node?.isSome) ∘ Prod.fst) := by
    rw [← List.countP_map, List.zipIdx_map_fst]
  rw [slots, List.length_map, toList, List.length_filterMap_eq_countP, size, h.live_eq,
    ← Array.countP_toList, hentries]
  simp only [Option.isSome_map, Function.comp_def]

end Dataflow.Arena
