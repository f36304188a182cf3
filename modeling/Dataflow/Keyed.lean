/-!
# Entries in key order

A list of entries with distinct keys in increasing order. Keys are compared by code points.
Inserting replaces the entry of the key, if there is one, and looking up afterwards finds what was
inserted last.
-/

namespace Dataflow.Keyed

variable {α : Type}

/-- Sets the entry of a key. -/
def insert (key : String) (a : α) : List (String × α) → List (String × α)
  | [] => [(key, a)]
  | (other, b) :: rest =>
    if key < other then (key, a) :: (other, b) :: rest
    else if key = other then (key, a) :: rest
    else (other, b) :: insert key a rest

/-- What is in a list after inserting was inserted or there before. -/
theorem mem_of_mem_insert {key : String} {a : α} {entries : List (String × α)}
    {entry : String × α} (h : entry ∈ insert key a entries) :
    entry = (key, a) ∨ entry ∈ entries := by
  induction entries with
  | nil => simpa [insert] using h
  | cons first rest ih =>
    obtain ⟨other, b⟩ := first
    simp only [insert] at h
    split at h
    · simpa using h
    · split at h
      · rcases List.mem_cons.1 h with rfl | h
        · exact .inl rfl
        · exact .inr (List.mem_cons_of_mem _ h)
      · rcases List.mem_cons.1 h with rfl | h
        · exact .inr List.mem_cons_self
        · exact (ih h).imp_right (List.mem_cons_of_mem _)

/-- What was inserted is found. -/
@[simp] theorem lookup_insert_self (key : String) (a : α) (entries : List (String × α)) :
    (insert key a entries).lookup key = some a := by
  induction entries with
  | nil => simp [insert]
  | cons entry rest ih =>
    obtain ⟨other, b⟩ := entry
    simp only [insert]
    split
    · simp
    · split
      · simp
      · have : (key == other) = false := by simpa using ‹¬key = other›
        simp [List.lookup_cons, this, ih]

/-- Inserting changes nothing of the other keys. -/
theorem lookup_insert_of_ne {key other : String} (h : other ≠ key) (a : α)
    (entries : List (String × α)) :
    (insert key a entries).lookup other = entries.lookup other := by
  have hne : (other == key) = false := by simpa using h
  induction entries with
  | nil => simp [insert, List.lookup_cons, hne]
  | cons entry rest ih =>
    obtain ⟨name, b⟩ := entry
    simp only [insert]
    split
    · simp [List.lookup_cons, hne]
    · split
      · rename_i heq
        subst heq
        simp [List.lookup_cons, hne]
      · simp [List.lookup_cons, ih]

/-- What is done to every entry is done to what is looked up. -/
theorem lookup_map {β : Type} (f : α → β) (key : String) (entries : List (String × α)) :
    (entries.map fun entry => (entry.1, f entry.2)).lookup key = (entries.lookup key).map f := by
  induction entries with
  | nil => rfl
  | cons entry rest ih =>
    obtain ⟨other, a⟩ := entry
    rw [List.map_cons, List.lookup_cons, List.lookup_cons]
    cases key == other with
    | true => rfl
    | false => exact ih

/-- In the order of the keys, and with one entry for each. -/
def Ordered (entries : List (String × α)) : Prop := entries.Pairwise fun e f => e.1 < f.1

/-- Inserting keeps the order, and replaces what is there for the key. -/
theorem ordered_insert {key : String} {a : α} {entries : List (String × α)} (h : Ordered entries) :
    Ordered (insert key a entries) := by
  induction entries with
  | nil => exact List.pairwise_singleton _ _
  | cons entry rest ih =>
    obtain ⟨other, b⟩ := entry
    obtain ⟨hfirst, hrest⟩ := List.pairwise_cons.1 h
    unfold insert
    split
    · rename_i hlt
      refine List.pairwise_cons.2 ⟨List.forall_mem_cons.2 ⟨hlt, fun e he => ?_⟩, h⟩
      exact String.lt_trans hlt (hfirst e he)
    split
    · rename_i heq
      subst heq
      exact List.pairwise_cons.2 ⟨hfirst, hrest⟩
    · rename_i hlt hne
      have hother : other < key := Decidable.byContradiction fun hge =>
        hne (String.le_antisymm (String.not_lt.1 hge) (String.not_lt.1 hlt))
      refine List.pairwise_cons.2 ⟨fun e he => ?_, ih hrest⟩
      rcases mem_of_mem_insert he with rfl | he
      · exact hother
      · exact hfirst e he

/-- A key above all others is inserted at the end. -/
theorem insert_last {key : String} (a : α) {entries : List (String × α)}
    (h : ∀ e ∈ entries, e.1 < key) : insert key a entries = entries ++ [(key, a)] := by
  induction entries with
  | nil => rfl
  | cons entry rest ih =>
    obtain ⟨other, b⟩ := entry
    obtain ⟨hother, hrest⟩ := List.forall_mem_cons.1 h
    have hother : other < key := hother
    rw [insert, if_neg (String.lt_asymm hother), if_neg (String.ne_of_lt hother).symm, ih hrest]
    rfl

/-- What is looked up in a list with one entry for each key is what is in it. -/
theorem Ordered.lookup_eq_some_iff {entries : List (String × α)} (h : Ordered entries)
    {key : String} {a : α} : entries.lookup key = some a ↔ (key, a) ∈ entries := by
  rw [List.lookup_eq_some_iff]
  constructor
  · rintro ⟨before, after, rfl, -⟩
    exact List.mem_append_right _ List.mem_cons_self
  · intro hmem
    obtain ⟨before, after, rfl⟩ := List.append_of_mem hmem
    refine ⟨before, after, rfl, fun entry hentry => ?_⟩
    have hlt : entry.1 < key := (List.pairwise_append.1 h).2.2 entry hentry _ List.mem_cons_self
    exact bne_iff_ne.2 (String.ne_of_lt hlt).symm

end Dataflow.Keyed
