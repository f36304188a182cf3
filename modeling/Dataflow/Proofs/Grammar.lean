import Dataflow.Proofs.Decoding

/-!
# The grammar of specifications

Which documents denote a node is told by a grammar (`Json.Document.IsNode`): an object with one entry for the
kind, all of whose other entries hold scalars, nodes or lists of nodes. Decoding succeeds for these and for no
others (`Json.Document.decodes_iff`). A property has three shapes, which are told apart by the documents that
fit them (`Property.fits_iff`), so a fault has no other shape to fall back on, however deep it stands.

If no name of a property comes twice, then a node is known from what its entries give
(`SpecNode.ofDocument?_object_iff_gathers`), and the order of entries is of no account at any depth
(`Json.Document.Reordered.decodes`).
-/

namespace Dataflow

open Json

/-! ## Entries set one after another -/

namespace Keyed

variable {α : Type}

/-- Entries with one for each key are known from what is looked up in them. -/
theorem Ordered.ext {entries others : List (String × α)} (h : Ordered entries) (hothers : Ordered others)
    (hlookup : ∀ key a, entries.lookup key = some a ↔ others.lookup key = some a) : entries = others := by
  have : Std.Antisymm fun e f : String × α => e.1 < f.1 := ⟨fun _ _ h h' => absurd h' (String.lt_asymm h)⟩
  have : Std.Irrefl fun e f : String × α => e.1 < f.1 := ⟨fun _ => String.lt_irrefl _⟩
  refine List.Pairwise.eq_of_mem_iff h hothers fun e => ?_
  rw [← h.lookup_eq_some_iff, ← hothers.lookup_eq_some_iff, hlookup]

/-- Sets the given entries, in their order. -/
def insertAll (entries new : List (String × α)) : List (String × α) :=
  new.foldl (fun entries e => insert e.1 e.2 entries) entries

/-- Entries stay in order as more are put among them. -/
theorem ordered_insertAll {entries : List (String × α)} (h : Ordered entries) (new : List (String × α)) :
    Ordered (insertAll entries new) := by
  induction new generalizing entries with
  | nil => exact h
  | cons e new ih => exact ih (ordered_insert h)

/-- Of entries with different keys each is found again. -/
theorem lookup_insertAll {new : List (String × α)} (hkeys : (new.map Prod.fst).Nodup) {key : String} {a : α} :
    (insertAll [] new).lookup key = some a ↔ (key, a) ∈ new := by
  induction new using List.reverseRecOn with
  | nil => simp [insertAll]
  | append_singleton new e ih =>
    rw [List.map_append, List.nodup_append] at hkeys
    obtain ⟨hkeys, -, hlast⟩ := hkeys
    have hinsert : insertAll [] (new ++ [e]) = insert e.1 e.2 (insertAll [] new) := List.foldl_append
    rw [hinsert, List.mem_append, List.mem_singleton]
    by_cases hkey : key = e.1
    · subst hkey
      have hnot : (e.1, a) ∉ new := fun hmem =>
        hlast e.1 (List.mem_map.2 ⟨_, hmem, rfl⟩) e.1 (by simp) rfl
      rw [lookup_insert_self, or_iff_right hnot, Option.some_inj, Prod.ext_iff]
      exact ⟨fun h => ⟨rfl, h.symm⟩, fun h => h.2.symm⟩
    · rw [lookup_insert_of_ne hkey, ih hkeys, or_iff_left fun h => hkey (congrArg Prod.fst h)]

end Keyed

/-! ## The grammar -/

namespace SpecNode

/-- Of the entries one is named for the kind, and it holds the kind as a text. -/
def GivesKind (entries : List (String × Document)) (kind : String) : Prop :=
  (entries.map Prod.fst).countP isKindName = 1 ∧
    ∃ name, isKindName name = true ∧ (name, .text kind) ∈ entries

/-- No name of a property comes twice. -/
def NamedOnce (entries : List (String × Document)) : Prop :=
  ((entries.map Prod.fst).filter fun name => !isKindName name).Nodup

end SpecNode

namespace Json.Document

mutual

/-- The documents that denote a node. -/
inductive IsNode : Document → Prop
  | object {entries : List (String × Document)} {kind : String} (hkind : SpecNode.GivesKind entries kind)
      (hothers : ∀ e ∈ entries, SpecNode.isKindName e.1 = false → IsProperty e.2) : IsNode (.object entries)

/-- The documents that denote what a property holds. -/
inductive IsProperty : Document → Prop
  | null : IsProperty .null
  | bool (b : Bool) : IsProperty (.bool b)
  | number (x : Number) : IsProperty (.number x)
  | text (s : String) : IsProperty (.text s)
  | node {d : Document} (h : IsNode d) : IsProperty d
  | nodes {ds : List Document} (h : ∀ d ∈ ds, IsNode d) : IsProperty (.list ds)

end

/-- No object of the document names a property twice. -/
inductive NamesOnce : Document → Prop
  | null : NamesOnce .null
  | bool (b : Bool) : NamesOnce (.bool b)
  | number (x : Number) : NamesOnce (.number x)
  | text (s : String) : NamesOnce (.text s)
  | list {ds : List Document} (h : ∀ d ∈ ds, NamesOnce d) : NamesOnce (.list ds)
  | object {entries : List (String × Document)} (hnames : SpecNode.NamedOnce entries)
      (h : ∀ e ∈ entries, NamesOnce e.2) : NamesOnce (.object entries)

/-- Documents that differ in the order of the entries of their objects. -/
inductive Reordered : Document → Document → Prop
  | refl (d : Document) : Reordered d d
  | trans {d d' d'' : Document} : Reordered d d' → Reordered d' d'' → Reordered d d''
  | perm {entries entries' : List (String × Document)} (h : entries.Perm entries') :
      Reordered (.object entries) (.object entries')
  /-- In an entry of an object. -/
  | entry (before after : List (String × Document)) (name : String) {d d' : Document} :
      Reordered d d' → Reordered (.object (before ++ (name, d) :: after))
        (.object (before ++ (name, d') :: after))
  /-- In an element of an array. -/
  | item (before after : List Document) {d d' : Document} :
      Reordered d d' → Reordered (.list (before ++ d :: after)) (.list (before ++ d' :: after))

/-- What holds of the scalars, and of an array or an object if it holds of what stands in it, holds of every
document. -/
@[elab_as_elim]
theorem induct {motive : Document → Prop}
    (scalar : ∀ d v, Value.ofDocument? d = some v → motive d)
    (list : ∀ ds, (∀ d ∈ ds, motive d) → motive (.list ds))
    (object : ∀ entries, (∀ e ∈ entries, motive e.2) → motive (.object entries)) : ∀ d, motive d
  | .list ds => list ds fun d h =>
    have := List.sizeOf_lt_of_mem h
    induct scalar list object d
  | .object entries => object entries fun e h =>
    have := List.sizeOf_lt_of_mem h
    induct scalar list object e.2
  | .null => scalar _ _ rfl
  | .bool _ => scalar _ _ rfl
  | .number _ => scalar _ _ rfl
  | .text _ => scalar _ _ rfl
termination_by d => sizeOf d
decreasing_by
  · simp_all
    omega
  · rcases e with ⟨name, d⟩
    simp_all
    omega

end Json.Document

/-! ## Kinds -/

namespace SpecNode

variable {entries : List (String × Document)}

/-- A kind is found if exactly one entry has its name and gives a text. -/
theorem kindOfEntries?_eq_some_iff {kind : String} :
    kindOfEntries? entries = some kind ↔ GivesKind entries kind := by
  have hcount : (entries.map Prod.fst).countP isKindName =
      (entries.filter fun e => isKindName e.1).length := by
    rw [List.countP_map, List.countP_eq_length_filter]
    rfl
  have hmem {name : String} : (name, .text kind) ∈ entries.filter (fun e => isKindName e.1) ↔
      isKindName name = true ∧ (name, .text kind) ∈ entries := by
    rw [List.mem_filter, and_comm]
  unfold GivesKind kindOfEntries?
  simp only [hcount, ← hmem]
  constructor
  · intro h
    split at h
    · rename_i name kind' hfilter
      cases h
      exact ⟨by rw [hfilter]; rfl, name, hfilter ▸ List.mem_singleton_self _⟩
    · cases h
  · rintro ⟨hlength, name, hname⟩
    obtain ⟨e, hfilter⟩ := List.length_eq_one_iff.1 hlength
    rw [hfilter] at hname ⊢
    cases List.mem_singleton.1 hname
    rfl

/-! ## Entries -/

/-- The property that an entry gives. -/
def givenProperty? (e : String × Document) : Option (String × Property) :=
  if isKindName e.1 then none else (Property.ofDocument? e.2).map (Prod.mk e.1)

/-- An entry gives a property under its own name, unless that is the name of the kind. -/
theorem givenProperty?_eq_some_iff {e : String × Document} {name : String} {p : Property} :
    givenProperty? e = some (name, p) ↔
      e.1 = name ∧ isKindName name = false ∧ Property.ofDocument? e.2 = some p := by
  unfold givenProperty?
  split
  · rename_i hkind
    constructor
    · intro h
      cases h
    · rintro ⟨rfl, hname, -⟩
      cases hkind.symm.trans hname
  · rename_i hkind
    rw [Option.map_eq_some_iff]
    constructor
    · rintro ⟨p, hp, ⟨⟩⟩
      exact ⟨rfl, Bool.eq_false_of_not_eq_true hkind, hp⟩
    · rintro ⟨rfl, -, hp⟩
      exact ⟨p, hp, rfl⟩

/-- Every entry but those for the kind denotes a property. -/
def Denote (entries : List (String × Document)) : Prop :=
  ∀ e ∈ entries, isKindName e.1 = false → ∃ p, Property.ofDocument? e.2 = some p

/-- Properties are found if all entries but the kind denote one, and then each is put among those before. -/
theorem propertiesOfEntries?_eq_some_iff {seen ps : List (String × Property)} :
    propertiesOfEntries? seen entries = some ps ↔
      Denote entries ∧ ps = Keyed.insertAll seen (entries.filterMap givenProperty?) := by
  unfold Denote
  induction entries generalizing seen with
  | nil =>
    rw [propertiesOfEntries?]
    exact ⟨fun h => ⟨fun _ h => (nomatch h), (Option.some.inj h).symm⟩, fun h => congrArg some h.2.symm⟩
  | cons e entries ih =>
    obtain ⟨name, d⟩ := e
    rw [propertiesOfEntries?, List.forall_mem_cons, List.filterMap_cons, givenProperty?]
    cases hname : isKindName name with
    | true => simpa using ih
    | false =>
      cases hp : Property.ofDocument? d with
      | none => simp
      | some p => simpa [Keyed.insertAll] using ih

/-- An object is a node if its entries give a kind and its properties can be read. -/
theorem ofDocument?_object_iff_denote {s : SpecNode} :
    ofDocument? (.object entries) = some s ↔ GivesKind entries s.kind ∧ Denote entries ∧
      s.properties = Keyed.insertAll [] (entries.filterMap givenProperty?) := by
  rw [ofDocument?_object_iff, kindOfEntries?_eq_some_iff, propertiesOfEntries?_eq_some_iff]

/-- An object denotes a node if one entry gives the kind and every other one denotes a property. -/
theorem exists_ofDocument?_object_iff :
    (∃ s, ofDocument? (.object entries) = some s) ↔ (∃ kind, GivesKind entries kind) ∧ Denote entries := by
  simp only [ofDocument?_object_iff_denote]
  constructor
  · rintro ⟨s, hkind, hdenote, -⟩
    exact ⟨⟨s.kind, hkind⟩, hdenote⟩
  · rintro ⟨⟨kind, hkind⟩, hdenote⟩
    exact ⟨⟨kind, _⟩, hkind, hdenote, rfl⟩

/-- Nodes in a list are read one by one. -/
theorem nodesOfItems?_eq_some_iff {ds : List Document} {ns : List SpecNode} :
    nodesOfItems? ds = some ns ↔ List.Forall₂ (fun d n => ofDocument? d = some n) ds ns := by
  induction ds generalizing ns with
  | nil =>
    rw [nodesOfItems?, List.forall₂_nil_left_iff, Option.some_inj, eq_comm]
  | cons d ds ih =>
    rw [nodesOfItems?]
    simp only [Option.bind_eq_bind, Option.bind_eq_some_iff, Option.pure_def, Option.some.injEq, ih]
    constructor
    · rintro ⟨n, hn, ns, hns, rfl⟩
      exact .cons hn hns
    · rintro (_ | ⟨hn, hns⟩)
      exact ⟨_, hn, _, hns, rfl⟩

/-- A list can be read if each of its items can. -/
theorem exists_nodesOfItems?_iff {ds : List Document} :
    (∃ ns, nodesOfItems? ds = some ns) ↔ ∀ d ∈ ds, ∃ n, ofDocument? d = some n := by
  simp only [nodesOfItems?_eq_some_iff]
  induction ds with
  | nil => exact ⟨fun _ _ h => (nomatch h), fun _ => ⟨[], .nil⟩⟩
  | cons d ds ih =>
    rw [List.forall_mem_cons, ← ih]
    constructor
    · rintro ⟨_, _ | ⟨hn, hns⟩⟩
      exact ⟨⟨_, hn⟩, _, hns⟩
    · rintro ⟨⟨n, hn⟩, ns, hns⟩
      exact ⟨n :: ns, .cons hn hns⟩

/-- A list is a property if each of its items is a node. -/
theorem exists_property_ofDocument?_list_iff {ds : List Document} :
    (∃ p, Property.ofDocument? (.list ds) = some p) ↔ ∀ d ∈ ds, ∃ n, ofDocument? d = some n := by
  rw [← exists_nodesOfItems?_iff, Property.ofDocument?]
  cases nodesOfItems? ds <;> simp

end SpecNode

/-! ## Decoding accepts the grammar -/

namespace Json.Document

/-- An object is a property if it is a node. -/
theorem isProperty_object_iff {entries : List (String × Document)} :
    (Document.object entries).IsProperty ↔ (Document.object entries).IsNode :=
  ⟨fun h => by cases h; assumption, .node⟩

/-- A list is a property if it holds nothing but nodes. -/
theorem isProperty_list_iff {ds : List Document} : (Document.list ds).IsProperty ↔ ∀ d ∈ ds, d.IsNode := by
  constructor
  · rintro (_ | _ | _ | _ | h | h)
    · cases h
    · exact h
  · exact .nodes

/-- An object is a node if it has one kind and its other entries are properties. -/
theorem isNode_object_iff {entries : List (String × Document)} :
    (Document.object entries).IsNode ↔ (∃ kind, SpecNode.GivesKind entries kind) ∧
      ∀ e ∈ entries, SpecNode.isKindName e.1 = false → e.2.IsProperty := by
  constructor
  · rintro ⟨hkind, hothers⟩
    exact ⟨⟨_, hkind⟩, hothers⟩
  · rintro ⟨⟨_, hkind⟩, hothers⟩
    exact ⟨hkind, hothers⟩

/-- A document denotes a node, or a property, exactly if the grammar says so. -/
theorem decodes_iff (d : Document) : ((∃ s, SpecNode.ofDocument? d = some s) ↔ d.IsNode) ∧
    ((∃ p, Property.ofDocument? d = some p) ↔ d.IsProperty) := by
  -- What is not an object is no node on either side.
  have hnode {d : Document} (hd : ∀ entries, d ≠ .object entries) :
      (∃ s, SpecNode.ofDocument? d = some s) ↔ d.IsNode := by
    constructor
    · rintro ⟨s, h⟩
      cases d with
      | object entries => exact absurd rfl (hd entries)
      | _ => cases h
    · rintro ⟨-, -⟩
      exact absurd rfl (hd _)
  induction d using induct with
  | scalar d v hv =>
    cases d with
    | list | object => cases hv
    | null => exact ⟨hnode nofun, fun _ => .null, fun _ => ⟨_, rfl⟩⟩
    | bool b => exact ⟨hnode nofun, fun _ => .bool b, fun _ => ⟨_, rfl⟩⟩
    | number x => exact ⟨hnode nofun, fun _ => .number x, fun _ => ⟨_, rfl⟩⟩
    | text s => exact ⟨hnode nofun, fun _ => .text s, fun _ => ⟨_, rfl⟩⟩
  | list ds ih =>
    refine ⟨hnode nofun, ?_⟩
    rw [SpecNode.exists_property_ofDocument?_list_iff, isProperty_list_iff]
    exact forall₂_congr fun d hd => (ih d hd).1
  | object entries ih =>
    have hobject : (∃ s, SpecNode.ofDocument? (.object entries) = some s) ↔
        (Document.object entries).IsNode := by
      rw [SpecNode.exists_ofDocument?_object_iff, isNode_object_iff]
      exact and_congr_right fun _ => forall₃_congr fun e he _ => (ih e he).2
    refine ⟨hobject, ?_⟩
    rw [isProperty_object_iff, ← hobject, SpecNode.property_ofDocument?_object]
    simp

end Json.Document

/-! ## What is decoded -/

/-- The shapes of a property, each on its own: a subtree, a list of subtrees and a literal. -/
inductive Property.Fits : Document → Property → Prop
  | node {d : Document} {n : SpecNode} (h : SpecNode.ofDocument? d = some n) : Fits d (.node n)
  | nodes {ds : List Document} {ns : List SpecNode}
      (h : List.Forall₂ (fun d n => SpecNode.ofDocument? d = some n) ds ns) : Fits (.list ds) (.nodes ns)
  | literal {d : Document} {v : Value} (h : Value.ofDocument? d = some v) : Fits d (.literal v)

/-- A document fits what it denotes and nothing else, so the shapes do not overlap. -/
theorem Property.fits_iff {d : Document} {p : Property} :
    Property.Fits d p ↔ Property.ofDocument? d = some p := by
  constructor
  · rintro (hn | hns | hv)
    · cases d with
      | object entries => rw [SpecNode.property_ofDocument?_object, hn]; rfl
      | _ => cases hn
    · rw [Property.ofDocument?, SpecNode.nodesOfItems?_eq_some_iff.2 hns]
      rfl
    · cases d with
      | list | object => cases hv
      | _ => cases hv; rfl
  · intro h
    cases d with
    | object entries =>
      rw [SpecNode.property_ofDocument?_object, Option.map_eq_some_iff] at h
      obtain ⟨n, hn, rfl⟩ := h
      exact .node hn
    | list ds =>
      rw [Property.ofDocument?] at h
      simp only [Option.bind_eq_bind, Option.bind_eq_some_iff, Option.pure_def, Option.some.injEq] at h
      obtain ⟨ns, hns, rfl⟩ := h
      exact .nodes (SpecNode.nodesOfItems?_eq_some_iff.1 hns)
    | _ => cases h; exact .literal rfl

namespace SpecNode

variable {entries : List (String × Document)}

/-- What is known of the node that an object with these entries denotes. -/
@[mk_iff]
structure Gathers (entries : List (String × Document)) (s : SpecNode) : Prop where
  kind : GivesKind entries s.kind
  /-- Every other entry fits a property. -/
  fits : ∀ e ∈ entries, isKindName e.1 = false → ∃ p, Property.Fits e.2 p
  /-- The node has the property by the entry's name, and has no others. -/
  property_iff : ∀ name p, s.property? name = some p ↔
    isKindName name = false ∧ ∃ d, (name, d) ∈ entries ∧ Property.Fits d p
  ordered : Keyed.Ordered s.properties

/-- The properties that are given are those of the entries that are not the kind. -/
theorem mem_filterMap_givenProperty?_iff {name : String} {p : Property} :
    (name, p) ∈ entries.filterMap givenProperty? ↔
      isKindName name = false ∧ ∃ d, (name, d) ∈ entries ∧ Property.Fits d p := by
  simp only [List.mem_filterMap, givenProperty?_eq_some_iff, Property.fits_iff]
  constructor
  · rintro ⟨⟨_, d⟩, he, rfl, hname, hp⟩
    exact ⟨hname, d, he, hp⟩
  · rintro ⟨hname, d, he, hp⟩
    exact ⟨(name, d), he, rfl, hname, hp⟩

/-- If no name comes twice, no property does. -/
theorem nodup_filterMap_givenProperty? (h : NamedOnce entries) :
    ((entries.filterMap givenProperty?).map Prod.fst).Nodup := by
  refine List.Nodup.sublist (?_ : List.Sublist _ _) h
  clear h
  induction entries with
  | nil => exact .slnil
  | cons e entries ih =>
    obtain ⟨name, d⟩ := e
    rw [List.filterMap_cons, givenProperty?, List.map_cons]
    cases hname : isKindName name with
    | true => simpa [hname] using ih
    | false =>
      cases hp : Property.ofDocument? d with
      | none => simpa [hname] using ih.cons name
      | some p => simpa [hname] using ih

/-- If no name of a property comes twice, then a node is read off an object exactly if it gathers what the
entries give. -/
theorem ofDocument?_object_iff_gathers (h : NamedOnce entries) {s : SpecNode} :
    ofDocument? (.object entries) = some s ↔ s.Gathers entries := by
  have hlookup {name : String} {p : Property} :
      (Keyed.insertAll [] (entries.filterMap givenProperty?)).lookup name = some p ↔
        isKindName name = false ∧ ∃ d, (name, d) ∈ entries ∧ Property.Fits d p :=
    (Keyed.lookup_insertAll (nodup_filterMap_givenProperty? h)).trans mem_filterMap_givenProperty?_iff
  have hordered := Keyed.ordered_insertAll .nil (entries.filterMap givenProperty?)
  have hdenote : Denote entries ↔ ∀ e ∈ entries, isKindName e.1 = false → ∃ p, Property.Fits e.2 p := by
    simp only [Denote, Property.fits_iff]
  rw [ofDocument?_object_iff_denote, hdenote]
  constructor
  · rintro ⟨hkind, hfits, hps⟩
    refine ⟨hkind, hfits, fun name p => ?_, hps ▸ hordered⟩
    rw [property?, hps, hlookup]
  · rintro ⟨hkind, hfits, hproperty, hps⟩
    refine ⟨hkind, hfits, hps.ext hordered fun name p => ?_⟩
    rw [hlookup]
    exact hproperty name p

/-! ## The order of entries -/

variable {entries' before after : List (String × Document)} {name : String} {d d' : Document} {s : SpecNode}

/-- Whether names come once does not depend on their order. -/
theorem namedOnce_perm (h : entries.Perm entries') : NamedOnce entries' ↔ NamedOnce entries :=
  ((h.map Prod.fst).filter _).nodup_iff.symm

/-- What a node gathers does not depend on the order of entries. -/
theorem gathers_perm (h : entries.Perm entries') : s.Gathers entries' ↔ s.Gathers entries := by
  have hnames := (h.map Prod.fst).countP_eq isKindName
  simp only [gathers_iff, GivesKind, hnames, h.mem_iff]

/-- To replace what an entry holds leaves all names as they are. -/
theorem map_fst_entry (d d' : Document) : (before ++ (name, d') :: after).map Prod.fst =
    (before ++ (name, d) :: after).map Prod.fst := by
  simp only [List.map_append, List.map_cons]

/-- An entry may be replaced by one that has the property if the old one has it. -/
theorem exists_entry_congr (before after : List (String × Document)) (name : String) (P : Document → Prop)
    (h : P d' ↔ P d) (other : String) :
    (∃ x, (other, x) ∈ before ++ (name, d') :: after ∧ P x) ↔
      ∃ x, (other, x) ∈ before ++ (name, d) :: after ∧ P x := by
  simp only [List.mem_append, List.mem_cons, Prod.mk.injEq, or_and_right, exists_or, and_assoc,
    exists_and_left, exists_eq_left, h]

/-- Only a text is read as a text. -/
theorem property_ofDocument?_eq_text_iff {text : String} :
    Property.ofDocument? d = some (.literal (.text text)) ↔ d = .text text := by
  rw [← Property.fits_iff]
  constructor
  · rintro (_ | _ | hv)
    cases d with
    | text => cases hv; rfl
    | _ => cases hv
  · rintro rfl
    exact .literal rfl

/-- A node is the same whatever denotes its properties. -/
theorem gathers_entry (h : Property.ofDocument? d' = Property.ofDocument? d) :
    s.Gathers (before ++ (name, d') :: after) ↔ s.Gathers (before ++ (name, d) :: after) := by
  have htext : d' = .text s.kind ↔ d = .text s.kind := by
    rw [← property_ofDocument?_eq_text_iff, h, property_ofDocument?_eq_text_iff]
  have hfits (p : Property) : Property.Fits d' p ↔ Property.Fits d p := by
    rw [Property.fits_iff, h, Property.fits_iff]
  have hkind : GivesKind (before ++ (name, d') :: after) s.kind ↔
      GivesKind (before ++ (name, d) :: after) s.kind := by
    have hmem := exists_entry_congr before after name (· = .text s.kind) htext
    simp only [exists_eq_right] at hmem
    simp only [GivesKind, map_fst_entry d d', hmem]
  have hproperty (p : Property) := exists_entry_congr before after name (Property.Fits · p) (hfits p)
  rw [gathers_iff, gathers_iff, hkind]
  simp only [List.forall_mem_append, List.forall_mem_cons, hfits, hproperty]

/-- A list with one item replaced is read as before, if the item is. -/
theorem nodesOfItems?_item {before after : List Document} (h : ofDocument? d' = ofDocument? d) :
    nodesOfItems? (before ++ d' :: after) = nodesOfItems? (before ++ d :: after) := by
  induction before with
  | nil => rw [List.nil_append, List.nil_append, nodesOfItems?, nodesOfItems?, h]
  | cons first before ih => rw [List.cons_append, List.cons_append, nodesOfItems?, nodesOfItems?, ih]

end SpecNode

/-- **The order of entries is of no account**, at any depth, if no name of a property comes twice. -/
theorem Json.Document.Reordered.decodes {d d' : Document} (h : d.Reordered d') (hd : d.NamesOnce) :
    d'.NamesOnce ∧ SpecNode.ofDocument? d' = SpecNode.ofDocument? d ∧
      Property.ofDocument? d' = Property.ofDocument? d := by
  -- For objects it is enough to compare the nodes.
  have hobject {entries entries' : List (String × Document)} (hnames : SpecNode.NamedOnce entries)
      (hnames' : SpecNode.NamedOnce entries')
      (h : ∀ s : SpecNode, s.Gathers entries' ↔ s.Gathers entries) :
      SpecNode.ofDocument? (.object entries') = SpecNode.ofDocument? (.object entries) ∧
        Property.ofDocument? (.object entries') = Property.ofDocument? (.object entries) := by
    have hnode : SpecNode.ofDocument? (.object entries') = SpecNode.ofDocument? (.object entries) :=
      Option.ext fun s => by
        rw [SpecNode.ofDocument?_object_iff_gathers hnames, SpecNode.ofDocument?_object_iff_gathers hnames', h]
    exact ⟨hnode, by rw [SpecNode.property_ofDocument?_object, SpecNode.property_ofDocument?_object, hnode]⟩
  induction h with
  | refl d => exact ⟨hd, rfl, rfl⟩
  | trans _ _ ih ih' =>
    obtain ⟨hd, hnode, hproperty⟩ := ih hd
    obtain ⟨hd, hnode', hproperty'⟩ := ih' hd
    exact ⟨hd, hnode'.trans hnode, hproperty'.trans hproperty⟩
  | perm h =>
    cases hd with
    | object hnames hentries =>
      have hnames' := (SpecNode.namedOnce_perm h).2 hnames
      exact ⟨.object hnames' fun e he => hentries e (h.mem_iff.2 he),
        hobject hnames hnames' fun s => SpecNode.gathers_perm h⟩
  | @entry before after name d d' _ ih =>
    cases hd with
    | object hnames hentries =>
      simp only [List.forall_mem_append, List.forall_mem_cons] at hentries
      obtain ⟨hbefore, hd, hafter⟩ := hentries
      obtain ⟨hd', -, hproperty⟩ := ih hd
      have hnames' : SpecNode.NamedOnce (before ++ (name, d') :: after) := by
        rwa [SpecNode.NamedOnce, SpecNode.map_fst_entry d d']
      refine ⟨.object hnames' ?_, hobject hnames hnames' fun s => SpecNode.gathers_entry hproperty⟩
      simp only [List.forall_mem_append, List.forall_mem_cons]
      exact ⟨hbefore, hd', hafter⟩
  | item before after _ ih =>
    cases hd with
    | list hitems =>
      simp only [List.forall_mem_append, List.forall_mem_cons] at hitems
      obtain ⟨hbefore, hd, hafter⟩ := hitems
      obtain ⟨hd', hnode, -⟩ := ih hd
      refine ⟨.list ?_, rfl, ?_⟩
      · simp only [List.forall_mem_append, List.forall_mem_cons]
        exact ⟨hbefore, hd', hafter⟩
      · rw [Property.ofDocument?, Property.ofDocument?, SpecNode.nodesOfItems?_item hnode]

namespace SpecNode

/-- **Decoding accepts the documents of the grammar and no others.** The documents that may stand for a property
fit one of its shapes, in one way. If no name of a property comes twice, the node gathers what its entries fit,
and the order of entries is of no account at any depth. A text is decoded as its document is. -/
theorem decodes_exactly_the_grammar :
    (∀ d, (∃ s, ofDocument? d = some s) ↔ d.IsNode) ∧
      (∀ d, (∃ p, Property.Fits d p) ↔ d.IsProperty) ∧
      (∀ d p q, Property.Fits d p → Property.Fits d q → p = q) ∧
      (∀ entries s, (Document.object entries).NamesOnce →
        (ofDocument? (.object entries) = some s ↔ s.Gathers entries)) ∧
      (∀ d d' : Document, d.NamesOnce → d.Reordered d' → ofDocument? d' = ofDocument? d) ∧
      ∀ text s, ofJson text = .ok s ↔ ∃ d, Document.read text = .ok d ∧ ofDocument? d = some s := by
  refine ⟨fun d => d.decodes_iff.1, fun d => ?_, fun d p q hp hq => ?_, fun entries s h => ?_,
    fun d d' hd h => (h.decodes hd).2.1, fun text s => ofJson_eq_ok_iff⟩
  · simp only [Property.fits_iff, d.decodes_iff.2]
  · rw [Property.fits_iff] at hp hq
    exact Option.some.inj (hp.symm.trans hq)
  · cases h with
    | object hnames _ => exact ofDocument?_object_iff_gathers hnames

/-- The entries of three objects change places, those of one of them in a list, and the same node is read of the
text of the outcome. A boolean in a list of nodes, further down, is no node, and nothing around it is one. -/
theorem decodes_exactly_the_grammar_reordered :
    let value : List (String × Document) := [("type", .text "value"), ("value", .null)]
    let entries : List (String × Document) :=
      [("kind", .text "component"), ("producers", .list [.object value]), ("state", .object value)]
    let s : SpecNode := ⟨"component", [("producers", .nodes [⟨"value", [("value", .literal .unit)]⟩]),
      ("state", .node ⟨"value", [("value", .literal .unit)]⟩)]⟩
    let text := "\x7b\"state\":\x7b\"value\":null,\"type\":\"value\"\x7d," ++
      "\"producers\":[\x7b\"value\":null,\"type\":\"value\"\x7d],\"kind\":\"component\"\x7d"
    s.Gathers entries ∧ ofJson text = .ok s ∧
      ¬(Document.object [("kind", .text "gate"), ("state", .object [("kind", .text "value"),
        ("conditions", .list [.object value, .bool true])])]).IsNode := by
  intro value entries s text
  obtain ⟨hgrammar, -, -, hgathers, horder, htext⟩ := decodes_exactly_the_grammar
  have hvalue : (Document.object value).NamesOnce := by
    refine .object (by unfold NamedOnce; decide) ?_
    simp only [value, List.forall_mem_cons]
    exact ⟨.text _, .null, fun _ h => nomatch h⟩
  have hnames : (Document.object entries).NamesOnce := by
    refine .object (by unfold NamedOnce; decide) ?_
    simp only [entries, List.forall_mem_cons]
    exact ⟨.text _, .list (List.forall_mem_singleton.2 hvalue), hvalue, fun _ h => nomatch h⟩
  have hswap : (Document.object value).Reordered (.object value.reverse) := .perm (List.reverse_perm _).symm
  have hreordered : (Document.object entries).Reordered (.object [("state", .object value.reverse),
      ("producers", .list [.object value.reverse]), ("kind", .text "component")]) :=
    ((Document.Reordered.perm (List.reverse_perm entries).symm).trans (.entry [] _ "state" hswap)).trans
      (.entry [_] _ "producers" (.item [] [] hswap))
  have hdenotes : ofDocument? (.object entries) = some s := rfl
  have hread : Document.read text = .ok (.object [("state", .object value.reverse),
      ("producers", .list [.object value.reverse]), ("kind", .text "component")]) := by
    unfold text
    cbv
  refine ⟨(hgathers entries s hnames).1 hdenotes, (htext text s).2 ⟨_, hread, ?_⟩, ?_⟩
  · exact (horder _ _ hnames hreordered).trans hdenotes
  · rw [← hgrammar]
    rintro ⟨_, h⟩
    cases h

end SpecNode

end Dataflow
