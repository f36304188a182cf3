import Dataflow.Spec.Json
import Dataflow.Proofs.Reading

/-!
# Specifications survive their format

A node is written as an object, its kind beside its properties, and what a property is shows in the form of
its document alone: an object is a subtree, an array is a list of subtrees and anything else is a literal.
So nothing is lost as long as no property bears a name of the kind and no number is written as null
(`SpecNode.Writable`), and a node that was read is always of that sort, as properties of such a name are
taken for the kind and numbers are finite. What may still be lost is told by the texts of the numbers.

Both ways go by induction on the tree: the reader takes off the text what was printed (`entries_readEntry`),
and the document that it makes of it denotes the node (`ofDocument?_toDocument`).
-/

namespace Dataflow

open Json

namespace SpecNode

/-! ## The nodes of a tree -/

mutual

/-- Every node of the tree, from the outermost on. -/
def subtrees : SpecNode → List SpecNode
  | ⟨kind, properties⟩ => ⟨kind, properties⟩ :: propertiesSubtrees properties

/-- Every node below a property. -/
def propertySubtrees : Property → List SpecNode
  | .node n => n.subtrees
  | .nodes ns => listSubtrees ns
  | .literal _ => []

/-- Every node of a list of trees. -/
def listSubtrees : List SpecNode → List SpecNode
  | [] => []
  | n :: ns => n.subtrees ++ listSubtrees ns

/-- Every node below a list of properties. -/
def propertiesSubtrees : List (String × Property) → List SpecNode
  | [] => []
  | (_, p) :: ps => propertySubtrees p ++ propertiesSubtrees ps

end

/-- A node that the format can hold. The properties stand in their order, as those of every node that is
built or read do; none bears a name of the kind, and the numbers among them are finite. -/
structure Writable (s : SpecNode) : Prop where
  ordered : Keyed.Ordered s.properties
  unnamed : ∀ e ∈ s.properties, isKindName e.1 = false
  finite : ∀ name x, (name, .literal (.number x)) ∈ s.properties → x.isFinite = true

/-- A node is one of its subtrees. -/
theorem mem_subtrees_self (s : SpecNode) : s ∈ s.subtrees := by
  cases s
  unfold subtrees
  exact List.mem_cons_self

/-- The subtrees of a property are those of the node that has it. -/
theorem mem_subtrees_of_mem (kind : String) {ps : List (String × Property)} {t : SpecNode}
    (h : t ∈ propertiesSubtrees ps) : t ∈ subtrees ⟨kind, ps⟩ := by
  unfold subtrees
  exact List.mem_cons_of_mem _ h

/-! ## Nodes from their documents -/

/-- The kind is told by the one entry that has its name. -/
theorem kindOfEntries?_documents {kind : String} {ps : List (String × Property)}
    (h : ∀ e ∈ ps, isKindName e.1 = false) :
    kindOfEntries? (("kind", .text kind) :: documentsOfProperties ps) = some kind := by
  have hnone : (documentsOfProperties ps).filter (fun e => isKindName e.1) = [] := by
    induction ps with
    | nil => rfl
    | cons e ps ih =>
      obtain ⟨hname, hps⟩ := List.forall_mem_cons.1 h
      rw [documentsOfProperties, List.filter_cons_of_neg (by simp [hname]), ih hps]
  unfold kindOfEntries?
  rw [List.filter_cons_of_pos rfl, hnone]

/-- An object is read as a node. -/
theorem property_ofDocument?_object (entries : List (String × Document)) :
    Property.ofDocument? (.object entries) = (ofDocument? (.object entries)).map .node := by
  rw [Property.ofDocument?, ofDocument?]
  cases kindOfEntries? entries with
  | none => rfl
  | some kind => cases propertiesOfEntries? [] entries <;> rfl

mutual

/-- A node is read off the document written for it. -/
theorem ofDocument?_toDocument (s : SpecNode) (h : ∀ t ∈ s.subtrees, t.Writable) :
    ofDocument? s.toDocument = some s := by
  have hs := h s s.mem_subtrees_self
  obtain ⟨kind, ps⟩ := s
  have hps := propertiesOfEntries?_documents ps [] hs.ordered hs.unnamed hs.finite fun t ht =>
    h t (mem_subtrees_of_mem kind ht)
  rw [toDocument, ofDocument?, kindOfEntries?_documents hs.unnamed, propertiesOfEntries?]
  show (propertiesOfEntries? [] (documentsOfProperties ps) >>= fun ps => some (SpecNode.mk kind ps)) = _
  rw [hps]
  rfl

/-- A property is read back from its document. -/
theorem property_ofDocument?_toDocument (p : Property)
    (hfinite : ∀ x, p = .literal (.number x) → x.isFinite = true)
    (h : ∀ t ∈ propertySubtrees p, t.Writable) : Property.ofDocument? p.toDocument = some p := by
  cases p with
  | node n =>
    have hn := ofDocument?_toDocument n h
    obtain ⟨kind, ps⟩ := n
    rw [toDocument] at hn
    rw [Property.toDocument, toDocument, property_ofDocument?_object, hn]
    rfl
  | nodes ns =>
    rw [Property.toDocument, Property.ofDocument?, nodesOfItems?_documents ns h]
    rfl
  | literal v =>
    cases v with
    | unit => rfl
    | bool b => rfl
    | text s => rfl
    | number x =>
      rw [Property.toDocument, Value.toDocument, if_pos (hfinite x rfl)]
      rfl

/-- Nodes in a list are read back from their documents. -/
theorem nodesOfItems?_documents (ns : List SpecNode) (h : ∀ t ∈ listSubtrees ns, t.Writable) :
    nodesOfItems? (documentsOfNodes ns) = some ns := by
  cases ns with
  | nil => rfl
  | cons n ns =>
    simp only [listSubtrees, List.mem_append] at h
    rw [documentsOfNodes, nodesOfItems?, ofDocument?_toDocument n fun t ht => h t (.inl ht),
      nodesOfItems?_documents ns fun t ht => h t (.inr ht)]
    rfl

/-- Behind properties that come before them, the properties are read off their documents. -/
theorem propertiesOfEntries?_documents (ps seen : List (String × Property))
    (hordered : Keyed.Ordered (seen ++ ps)) (hunnamed : ∀ e ∈ ps, isKindName e.1 = false)
    (hfinite : ∀ name x, (name, .literal (.number x)) ∈ ps → x.isFinite = true)
    (h : ∀ t ∈ propertiesSubtrees ps, t.Writable) :
    propertiesOfEntries? seen (documentsOfProperties ps) = some (seen ++ ps) := by
  cases ps with
  | nil => rw [documentsOfProperties, propertiesOfEntries?, List.append_nil]
  | cons e ps =>
    obtain ⟨name, p⟩ := e
    obtain ⟨hname, hunnamed⟩ := List.forall_mem_cons.1 hunnamed
    simp only [propertiesSubtrees, List.mem_append] at h
    have hlast : ∀ e ∈ seen, e.1 < name := fun e he =>
      (List.pairwise_append.1 hordered).2.2 e he (name, p) List.mem_cons_self
    have hp := property_ofDocument?_toDocument p
      (fun x hx => hfinite name x (hx ▸ List.mem_cons_self)) fun t ht => h t (.inl ht)
    rw [documentsOfProperties, propertiesOfEntries?, hname, hp]
    show propertiesOfEntries? (Keyed.insert name p seen) (documentsOfProperties ps) = _
    rw [Keyed.insert_last p hlast, propertiesOfEntries?_documents ps (seen ++ [(name, p)])]
    · rw [List.append_assoc]; rfl
    · rwa [List.append_assoc]
    · exact hunnamed
    · exact fun name x hx => hfinite name x (List.mem_cons_of_mem _ hx)
    · exact fun t ht => h t (.inr ht)

end

/-! ## Reading what is written -/

/-- The kind is read where it stands. -/
theorem readEntry_kind (kind : String) (rest : List Char) :
    readEntry (none, []) "kind" (':' :: (printText kind ++ rest)) = .ok ((some kind, []), rest) := by
  have htoken : Reader.token (printText kind ++ rest) = .ok ('"', printText kind ++ rest) :=
    Reader.token_eq rfl
  have htext : readText (printText kind ++ rest) = .ok (kind, rest) :=
    (Reader.bind_eq htoken).trans (Reader.text_print kind rest)
  exact (Reader.bind_eq (Reader.colon_eq rfl)).trans (Reader.bind_eq htext)

/-- An entry that is not the kind is read as a document and put before the others. -/
theorem readEntry_property {kind? : Option String} {seen : List (String × Document)} {name : String}
    {d : Document} {rest : List Char} (hname : isKindName name = false)
    (hnumbers : ∀ x ∈ d.numbers, x.ReadsBack) (hnesting : d.nesting ≤ Reader.nestingLimit - 1)
    (hrest : Reader.Delimited rest) :
    Reader.ReadsTo (readEntry (kind?, seen) name) (':' :: (d.chars ++ rest))
      (kind?, (name, d) :: seen) rest := by
  obtain ⟨cs', hvalue, hleft⟩ : Reader.ReadsTo
      (Reader.value ((d.chars ++ rest).length + 1) (Reader.nestingLimit - 1)) (d.chars ++ rest) d rest :=
    Reader.value_chars d hnumbers (by rw [List.length_append]; omega) hnesting hrest rfl
  have hdocument : Reader.document 1 (d.chars ++ rest) = .ok (d, cs') := hvalue
  refine ⟨cs', ?_, hleft⟩
  unfold readEntry
  rw [hname, if_neg Bool.false_ne_true]
  exact (Reader.bind_eq (Reader.colon_eq rfl)).trans (Reader.bind_eq hdocument)

/-- The entries behind the kind are read one after another. -/
theorem entries_readEntry (es : List (String × Document)) {kind? : Option String}
    {seen : List (String × Document)} {k : Nat} {cs rest : List Char}
    (hnames : ∀ e ∈ es, isKindName e.1 = false) (hnumbers : ∀ x ∈ entryNumbers es, x.ReadsBack)
    (hnesting : entryNesting es ≤ Reader.nestingLimit - 1) (hk : es.length < k)
    (h : cs.dropWhile Reader.isBlank = entryChars false es ++ '}' :: rest) :
    Reader.entries readEntry k false (kind?, seen) cs =
      .ok ((kind?, es.reverse ++ seen), '}' :: rest) := by
  induction es generalizing seen k cs with
  | nil =>
    obtain ⟨k, rfl⟩ := Nat.exists_eq_succ_of_ne_zero (Nat.ne_zero_of_lt hk)
    exact Reader.entries_nil _ k false _ h
  | cons e es ih =>
    obtain ⟨k, rfl⟩ := Nat.exists_eq_succ_of_ne_zero (Nat.ne_zero_of_lt hk)
    obtain ⟨name, d⟩ := e
    obtain ⟨hname, hnames⟩ := List.forall_mem_cons.1 hnames
    simp only [entryNumbers, List.mem_append, entryNesting, List.length_cons] at hnumbers hnesting hk
    obtain ⟨cs', hentry, hleft⟩ : Reader.ReadsTo (readEntry (kind?, seen) name)
        (':' :: (d.chars ++ (entryChars false es ++ '}' :: rest))) (kind?, (name, d) :: seen)
        (entryChars false es ++ '}' :: rest) :=
      readEntry_property hname (fun x hx => hnumbers x (.inl hx)) (by omega)
        (Reader.delimited_entryChars es rest)
    have h : cs.dropWhile Reader.isBlank = [','] ++ printText name ++
        ':' :: (d.chars ++ (entryChars false es ++ '}' :: rest)) := by
      rw [h]
      simp [entryChars]
    rw [Reader.entries_cons _ k false _ name h, Reader.bind_eq hentry,
      ih hnames (fun x hx => hnumbers x (.inr hx)) (by omega) (by omega) hleft,
      List.reverse_cons, List.append_assoc]
    rfl

/-- No property is written under the name of the kind. -/
theorem documents_unnamed {ps : List (String × Property)} (h : ∀ e ∈ ps, isKindName e.1 = false) :
    ∀ e ∈ documentsOfProperties ps, isKindName e.1 = false := by
  induction ps with
  | nil => exact fun _ h => nomatch h
  | cons e ps ih =>
    obtain ⟨hname, hps⟩ := List.forall_mem_cons.1 h
    exact List.forall_mem_cons.2 ⟨hname, ih hps⟩

/-- What was written of a node is read as its kind and its entries. -/
theorem entries_written (kind : String) (es : List (String × Document)) {k : Nat}
    (hnames : ∀ e ∈ es, isKindName e.1 = false) (hnumbers : ∀ x ∈ entryNumbers es, x.ReadsBack)
    (hnesting : entryNesting es ≤ Reader.nestingLimit - 1) (hk : es.length + 1 < k) :
    Reader.entries readEntry k true (none, [])
        (printText "kind" ++ ':' :: (printText kind ++ (entryChars false es ++ ['}']))) =
      .ok ((some kind, es.reverse), ['}']) := by
  obtain ⟨k, rfl⟩ := Nat.exists_eq_succ_of_ne_zero (Nat.ne_zero_of_lt hk)
  rw [Reader.entries_cons _ k true _ "kind" rfl, Reader.bind_eq (readEntry_kind kind _),
    entries_readEntry es hnames hnumbers hnesting (by omega)
      (Reader.delimited_entryChars es []).dropWhile,
    List.append_nil]

/-- A node is made of the kind and the entries that were read. -/
theorem reader_eq {kind : String} {es : List (String × Document)} {ps : List (String × Property)}
    {tail rest : List Char}
    (hentries : Reader.entries readEntry (tail.length + 1) true (none, []) tail =
      .ok ((some kind, es), '}' :: rest))
    (hps : propertiesOfEntries? [] es.reverse = some ps) :
    reader ('{' :: tail) = .ok (⟨kind, ps⟩, rest) := by
  refine (Reader.bind_eq (Reader.token_eq rfl)).trans ?_
  refine (Reader.bind_eq (r := Reader.skip) rfl).trans ?_
  refine (Reader.bind_eq (r := Reader.bound) rfl).trans ?_
  refine (Reader.bind_eq hentries).trans ?_
  dsimp only
  rw [hps]
  exact Reader.bind_eq (Reader.close_eq rfl)

/-- A printed object begins with its first entry, which is the kind of a node. -/
theorem toList_print_object (name kind : String) (es : List (String × Document)) :
    (Document.object ((name, .text kind) :: es)).print.toList =
      '{' :: (printText name ++ ':' :: (printText kind ++ (entryChars false es ++ ['}']))) := by
  have hkind : (Document.text kind).chars = printText kind := rfl
  unfold Document.print
  rw [String.toList_ofList, Document.chars, entryChars, hkind]
  simp

/-- A node that can be written is read back. -/
theorem ofJson_toJson {s : SpecNode} (h : ∀ t ∈ s.subtrees, t.Writable)
    (hnesting : s.toDocument.nesting ≤ Reader.nestingLimit)
    (hnumbers : ∀ x ∈ s.toDocument.numbers, x.ReadsBack) : ofJson s.toJson = .ok s := by
  have hs := h s s.mem_subtrees_self
  obtain ⟨kind, ps⟩ := s
  have hps := propertiesOfEntries?_documents ps [] hs.ordered hs.unnamed hs.finite fun t ht =>
    h t (mem_subtrees_of_mem kind ht)
  have hnames := documents_unnamed hs.unnamed
  unfold ofJson toJson
  rw [toDocument] at hnesting hnumbers ⊢
  generalize documentsOfProperties ps = es at *
  have hnesting : entryNesting es ≤ Reader.nestingLimit - 1 :=
    Nat.le_trans (Nat.le_max_right _ _) (Nat.le_of_succ_le_succ hnesting)
  have hnumbers : ∀ x ∈ entryNumbers es, x.ReadsBack := fun x hx =>
    hnumbers x (List.mem_append_right _ hx)
  have hlength := Reader.length_le_entryChars es false
  have hreader : reader (Document.object (("kind", .text kind) :: es)).print.toList =
      .ok (⟨kind, ps⟩, []) := by
    rw [toList_print_object]
    refine reader_eq (entries_written kind es hnames hnumbers hnesting ?_) ?_
    · simp only [List.length_append, List.length_cons]
      omega
    · rw [List.reverse_reverse]
      exact hps
  exact Reader.run_eq hreader rfl

/-! ## What can be read -/

/-- What is known of a property that was read of a document nested so deep. -/
structure PropertyRead (depth : Nat) (p : Property) : Prop where
  writable : ∀ t ∈ propertySubtrees p, t.Writable
  nesting_le : p.toDocument.nesting ≤ depth
  finite : ∀ x, p = .literal (.number x) → x.isFinite = true

/-- What is known of the properties that were read of an object nested so deep. -/
structure PropertiesRead (depth : Nat) (ps : List (String × Property)) : Prop where
  ordered : Keyed.Ordered ps
  unnamed : ∀ e ∈ ps, isKindName e.1 = false
  read : ∀ e ∈ ps, PropertyRead depth e.2

theorem mem_propertiesSubtrees {ps : List (String × Property)} {t : SpecNode} :
    t ∈ propertiesSubtrees ps ↔ ∃ e ∈ ps, t ∈ propertySubtrees e.2 := by
  induction ps with
  | nil => simp [propertiesSubtrees]
  | cons e ps ih => simp [propertiesSubtrees, ih]

/-- The properties of a node nest as deep as the deepest of them. -/
theorem entryNesting_documents_le {ps : List (String × Property)} {k : Nat} :
    entryNesting (documentsOfProperties ps) ≤ k ↔ ∀ e ∈ ps, e.2.toDocument.nesting ≤ k := by
  induction ps with
  | nil => simp [documentsOfProperties, entryNesting]
  | cons e ps ih => simp [documentsOfProperties, entryNesting, ih]

/-- Properties that were read stay in order when one more is put among them. -/
theorem PropertiesRead.insert {depth : Nat} {ps : List (String × Property)} {name : String} {p : Property}
    (h : PropertiesRead depth ps) (hname : isKindName name = false) (hp : PropertyRead depth p) :
    PropertiesRead depth (Keyed.insert name p ps) where
  ordered := Keyed.ordered_insert h.ordered
  unnamed e he := by
    rcases Keyed.mem_of_mem_insert he with rfl | he
    · exact hname
    · exact h.unnamed e he
  read e he := by
    rcases Keyed.mem_of_mem_insert he with rfl | he
    · exact hp
    · exact h.read e he

/-- A node can be written if its properties were read. -/
theorem PropertiesRead.writable {depth : Nat} {ps : List (String × Property)} (h : PropertiesRead depth ps)
    (kind : String) : ∀ t ∈ subtrees ⟨kind, ps⟩, t.Writable := by
  intro t ht
  unfold subtrees at ht
  rcases List.mem_cons.1 ht with rfl | ht
  · exact ⟨h.ordered, h.unnamed, fun name x hx => (h.read _ hx).finite x rfl⟩
  · obtain ⟨e, he, ht⟩ := mem_propertiesSubtrees.1 ht
    exact (h.read e he).writable t ht

/-- A node is one deeper than its properties. -/
theorem PropertiesRead.nesting_le {depth : Nat} {ps : List (String × Property)}
    (h : PropertiesRead depth ps) (kind : String) : (toDocument ⟨kind, ps⟩).nesting ≤ depth + 1 := by
  rw [toDocument, Document.nesting, entryNesting]
  exact Nat.succ_le_succ (Nat.max_le.2
    ⟨Nat.zero_le _, entryNesting_documents_le.2 fun e he => (h.read e he).nesting_le⟩)

/-- A literal has no subtrees, and a finite number reads back. -/
theorem PropertyRead.literal {depth : Nat} {v : Value} (h : ∀ x, v = .number x → x.isFinite = true) :
    PropertyRead depth (.literal v) where
  writable _ ht := by cases ht
  nesting_le := by
    cases v with
    | number x =>
      rw [Property.toDocument, Value.toDocument]
      split <;> exact Nat.zero_le _
    | _ => exact Nat.zero_le _
  finite x hx := h x (Property.literal.inj hx)

theorem exists_depth {k depth : Nat} (h : k + 1 ≤ depth) : ∃ depth', depth = depth' + 1 ∧ k ≤ depth' :=
  ⟨depth - 1, by omega, by omega⟩

/-- A list that can be read has items that can be, one level deeper. -/
theorem readable_of_list {depth : Nat} {ds : List Document} (h : (Document.list ds).Readable depth) :
    ∃ depth', depth = depth' + 1 ∧ ∀ d ∈ ds, d.Readable depth' := by
  obtain ⟨depth, rfl, hnesting⟩ := exists_depth h.nesting_le
  exact ⟨depth, rfl, fun d hd =>
    ⟨itemNesting_le.1 hnesting d hd, fun x hx => h.finite x (mem_itemNumbers.2 ⟨d, hd, hx⟩)⟩⟩

/-- An object that can be read has entries that can be, one level deeper. -/
theorem readable_of_object {depth : Nat} {es : List (String × Document)}
    (h : (Document.object es).Readable depth) :
    ∃ depth', depth = depth' + 1 ∧ ∀ e ∈ es, e.2.Readable depth' := by
  obtain ⟨depth, rfl, hnesting⟩ := exists_depth h.nesting_le
  exact ⟨depth, rfl, fun e he =>
    ⟨entryNesting_le.1 hnesting e he, fun x hx => h.finite x (mem_entryNumbers.2 ⟨e, he, hx⟩)⟩⟩

/-- An object denotes the node of its kind and its properties. -/
theorem ofDocument?_object_iff {es : List (String × Document)} {s : SpecNode} :
    ofDocument? (.object es) = some s ↔
      kindOfEntries? es = some s.kind ∧ propertiesOfEntries? [] es = some s.properties := by
  obtain ⟨kind, ps⟩ := s
  rw [ofDocument?]
  simp only [Option.bind_eq_bind, Option.bind_eq_some_iff, Option.pure_def, Option.some.injEq,
    SpecNode.mk.injEq]
  constructor
  · rintro ⟨_, hkind, _, hps, rfl, rfl⟩
    exact ⟨hkind, hps⟩
  · rintro ⟨hkind, hps⟩
    exact ⟨kind, hkind, ps, hps, rfl, rfl⟩

theorem PropertiesRead.nil (depth : Nat) : PropertiesRead depth [] :=
  ⟨.nil, fun _ h => (nomatch h), fun _ h => (nomatch h)⟩

mutual

/-- A node that was read can be written, and nests no deeper than what it was read of. -/
theorem ofDocument?_read (d : Document) {depth : Nat} {s : SpecNode} (hd : d.Readable depth)
    (h : ofDocument? d = some s) : (∀ t ∈ s.subtrees, t.Writable) ∧ s.toDocument.nesting ≤ depth := by
  cases d with
  | object es =>
    obtain ⟨depth, rfl, hes⟩ := readable_of_object hd
    obtain ⟨kind, ps⟩ := s
    obtain ⟨-, hps⟩ := ofDocument?_object_iff.1 h
    have hread := propertiesOfEntries?_read es hes (.nil depth) hps
    exact ⟨hread.writable kind, hread.nesting_le kind⟩
  | _ => cases h

/-- A property that was read can be written, and nests no deeper than its document. -/
theorem property_ofDocument?_read (d : Document) {depth : Nat} {p : Property} (hd : d.Readable depth)
    (h : Property.ofDocument? d = some p) : PropertyRead depth p := by
  cases d with
  | object es =>
    obtain ⟨depth, rfl, hes⟩ := readable_of_object hd
    rw [property_ofDocument?_object, Option.map_eq_some_iff] at h
    obtain ⟨s, hs, rfl⟩ := h
    obtain ⟨kind, ps⟩ := s
    obtain ⟨-, hps⟩ := ofDocument?_object_iff.1 hs
    have hread := propertiesOfEntries?_read es hes (.nil depth) hps
    exact ⟨hread.writable kind, hread.nesting_le kind, fun x hx => by cases hx⟩
  | list ds =>
    obtain ⟨depth, rfl, hds⟩ := readable_of_list hd
    rw [Property.ofDocument?] at h
    simp only [Option.bind_eq_bind, Option.bind_eq_some_iff, Option.pure_def, Option.some.injEq] at h
    obtain ⟨ns, hns, rfl⟩ := h
    obtain ⟨hwritable, hnesting⟩ := nodesOfItems?_read ds hds hns
    exact ⟨hwritable, Nat.succ_le_succ hnesting, fun x hx => by cases hx⟩
  | null | bool | text =>
    cases h
    exact .literal fun x hx => by cases hx
  | number n =>
    cases h
    refine .literal fun x hx => ?_
    cases hx
    exact hd.finite n (List.mem_singleton.2 rfl)

/-- Nodes that were read can be written. -/
theorem nodesOfItems?_read (ds : List Document) {depth : Nat} {ns : List SpecNode}
    (hds : ∀ d ∈ ds, d.Readable depth) (h : nodesOfItems? ds = some ns) :
    (∀ t ∈ listSubtrees ns, t.Writable) ∧ itemNesting (documentsOfNodes ns) ≤ depth := by
  cases ds with
  | nil =>
    cases h
    exact ⟨fun _ h => (nomatch h), Nat.zero_le _⟩
  | cons d ds =>
    obtain ⟨hd, hds⟩ := List.forall_mem_cons.1 hds
    rw [nodesOfItems?] at h
    simp only [Option.bind_eq_bind, Option.bind_eq_some_iff, Option.pure_def, Option.some.injEq] at h
    obtain ⟨n, hn, ns, hns, rfl⟩ := h
    -- The rest of the list is smaller, so it is known by the theorem itself.
    obtain ⟨hfirst, hfirstNesting⟩ := ofDocument?_read d hd hn
    obtain ⟨hrest, hrestNesting⟩ := nodesOfItems?_read ds hds hns
    refine ⟨fun t ht => ?_, Nat.max_le.2 ⟨hfirstNesting, hrestNesting⟩⟩
    exact (List.mem_append.1 ht).elim (hfirst t) (hrest t)

/-- Properties that were read can be written, and no name is taken twice. -/
theorem propertiesOfEntries?_read (es : List (String × Document)) {depth : Nat}
    {seen ps : List (String × Property)} (hes : ∀ e ∈ es, e.2.Readable depth)
    (hseen : PropertiesRead depth seen) (h : propertiesOfEntries? seen es = some ps) :
    PropertiesRead depth ps := by
  cases es with
  | nil =>
    cases h
    exact hseen
  | cons e es =>
    obtain ⟨name, d⟩ := e
    obtain ⟨hd, hes⟩ := List.forall_mem_cons.1 hes
    rw [propertiesOfEntries?] at h
    split at h
    · exact propertiesOfEntries?_read es hes hseen h
    · rename_i hname
      simp only [Option.bind_eq_bind, Option.bind_eq_some_iff] at h
      obtain ⟨p, hp, hps⟩ := h
      exact propertiesOfEntries?_read es hes
        (hseen.insert (by simpa using hname) (property_ofDocument?_read d hd hp)) hps

end

/-- Entries are read at one level less than the node. -/
theorem yields_readEntry (seen : Option String × List (String × Document)) (name : String)
    (hseen : ∀ e ∈ seen.2, e.2.Readable (Reader.nestingLimit - 1)) :
    Reader.Yields (readEntry seen name) fun seen =>
      ∀ e ∈ seen.2, e.2.Readable (Reader.nestingLimit - 1) := by
  unfold readEntry
  split
  · dsimp only
    split
    · exact .after fun _ => .after fun _ => .after fun kind => .pure hseen
    · exact .after fun _ => .after fun kind => .pure hseen
  · exact .after fun _ => (Reader.yields_document 1).bind fun d hd =>
      .pure (List.forall_mem_cons.2 ⟨hd, hseen⟩)

/-- A node that was read can be written, in a text that can be read. -/
theorem yields_reader : Reader.Yields reader fun s =>
    (∀ t ∈ s.subtrees, t.Writable) ∧ s.toDocument.nesting ≤ Reader.nestingLimit := by
  unfold reader
  refine .after fun first => ?_
  split
  · refine .after fun _ => .after fun n => ?_
    refine (Reader.Yields.entries yields_readEntry n true (none, []) fun _ h => (nomatch h)).bind ?_
    rintro ⟨kind?, es⟩ hes
    cases kind? with
    | none => exact .throw _
    | some kind =>
      dsimp only
      split
      · exact .throw _
      · rename_i ps hps
        have hread := propertiesOfEntries?_read es.reverse (fun e he => hes e (List.mem_reverse.1 he))
          (.nil _) hps
        exact .after fun _ => .pure ⟨hread.writable kind, hread.nesting_le kind⟩
  · exact .wrongType _

/-! ## Equality -/

/-- A value equals itself unless it is no number. -/
theorem value_beq_self {v : Value} (h : ∀ x, v = .number x → x.isFinite = true) : (v == v) = true := by
  cases v with
  | number x => exact Double.beq_self (h x rfl)
  | unit => rfl
  | bool b => exact BEq.refl b
  | text s => exact BEq.refl s

mutual

/-- A node that can be written is equal to itself. -/
theorem beq_self (s : SpecNode) (h : ∀ t ∈ s.subtrees, t.Writable) : beq s s = true := by
  have hs := h s s.mem_subtrees_self
  obtain ⟨kind, ps⟩ := s
  have hps := beqProperties_self ps hs.finite fun t ht => h t (mem_subtrees_of_mem kind ht)
  rw [beq]
  show (decide (kind = kind) && beqProperties ps ps) = true
  rw [hps, decide_eq_true rfl]
  rfl

/-- A property equals itself if all numbers in it are finite. -/
theorem beqProperty_self (p : Property) (hfinite : ∀ x, p = .literal (.number x) → x.isFinite = true)
    (h : ∀ t ∈ propertySubtrees p, t.Writable) : beqProperty p p = true := by
  cases p with
  | node n => exact beq_self n h
  | nodes ns => exact beqNodes_self ns h
  | literal v => exact value_beq_self fun x hx => hfinite x (hx ▸ rfl)

/-- A list of nodes equals itself if all numbers in it are finite. -/
theorem beqNodes_self (ns : List SpecNode) (h : ∀ t ∈ listSubtrees ns, t.Writable) :
    beqNodes ns ns = true := by
  cases ns with
  | nil => rfl
  | cons n ns =>
    simp only [listSubtrees, List.mem_append] at h
    rw [beqNodes]
    show (beq n n && beqNodes ns ns) = true
    rw [beq_self n fun t ht => h t (.inl ht), beqNodes_self ns fun t ht => h t (.inr ht)]
    rfl

/-- Properties equal themselves if all numbers in them are finite. -/
theorem beqProperties_self (ps : List (String × Property))
    (hfinite : ∀ name x, (name, .literal (.number x)) ∈ ps → x.isFinite = true)
    (h : ∀ t ∈ propertiesSubtrees ps, t.Writable) : beqProperties ps ps = true := by
  cases ps with
  | nil => rfl
  | cons e ps =>
    obtain ⟨name, p⟩ := e
    simp only [propertiesSubtrees, List.mem_append] at h
    have hp := beqProperty_self p (fun x hx => hfinite name x (hx ▸ List.mem_cons_self))
      fun t ht => h t (.inl ht)
    have hps := beqProperties_self ps (fun name x hx => hfinite name x (List.mem_cons_of_mem _ hx))
      fun t ht => h t (.inr ht)
    rw [beqProperties]
    show (decide (name = name) && beqProperty p p && beqProperties ps ps) = true
    rw [hp, hps, decide_eq_true rfl]
    rfl

end

/-! ## The round trips -/

/-- A node that the format can hold, and whose document nests no deeper than the reader allows, is read off
the text written for it; and whatever text a node was read of, it is read off the text written for it. In
both cases every number that is written is taken to read back to itself. What is read is the same node, and
equal to it as nodes are compared. -/
theorem survives_json :
    (∀ s : SpecNode, (∀ t ∈ s.subtrees, t.Writable) → s.toDocument.nesting ≤ Reader.nestingLimit →
        (∀ x ∈ s.toDocument.numbers, x.ReadsBack) → ofJson s.toJson = .ok s ∧ (s == s) = true) ∧
      ∀ text s, ofJson text = .ok s → (∀ x ∈ s.toDocument.numbers, x.ReadsBack) →
        ofJson s.toJson = .ok s ∧ (s == s) = true := by
  refine ⟨fun s h hnesting hnumbers => ⟨ofJson_toJson h hnesting hnumbers, beq_self s h⟩, ?_⟩
  intro text s hread hnumbers
  obtain ⟨cs', hreader, -⟩ := Reader.of_run hread
  obtain ⟨h, hnesting⟩ := yields_reader _ _ _ hreader
  exact ⟨ofJson_toJson h hnesting hnumbers, beq_self s h⟩

/-- A list of no nodes, a number, an absent label and a subtree come back as what they were, also from a
text with blanks that names the kind another way. -/
theorem survives_json_nested :
    let s : SpecNode := ⟨"sum", [("inputs", .nodes []), ("limit", .literal (.number 4)),
      ("state", .node ⟨"value", [("label", .literal .unit)]⟩)]⟩
    let text :=
      "\x7b \"limit\":4,\"type\":\"sum\",\"inputs\":[],\"state\":\x7b\"label\":null,\"kind\":\"value\"\x7d\x7d"
    (ofJson s.toJson = .ok s ∧ (s == s) = true) ∧
      ofJson text = .ok s ∧ ofJson s.toJson = .ok s ∧ (s == s) = true := by
  intro s text
  have hnumbers : ∀ x ∈ s.toDocument.numbers, x.ReadsBack := by
    have hreal : s.toDocument.numbers = [.real 4] := rfl
    rw [hreal]
    exact List.forall_mem_singleton.2 rfl
  have hwritable : ∀ t ∈ s.subtrees, t.Writable := by
    have hsubtrees : s.subtrees = [s, ⟨"value", [("label", .literal .unit)]⟩] := rfl
    rw [hsubtrees]
    refine List.forall_mem_cons.2 ⟨⟨?_, by decide, ?_⟩, List.forall_mem_singleton.2 ⟨?_, by decide, ?_⟩⟩
    · unfold Keyed.Ordered
      decide
    · simp [s]
      decide
    · exact List.pairwise_singleton _ _
    · simp
  -- the documents are computed; that the limit is four is known of its token, not by computing with it
  have hentries : Reader.entries readEntry (text.toList.tail.length + 1) true (none, []) text.toList.tail =
      .ok ((some "sum", [("state", .object [("label", .null), ("kind", .text "value")]),
        ("inputs", .list []), ("limit", .number (.natural 4))]), ['}']) := by
    unfold text
    cbv
  have hproperties : propertiesOfEntries? [] [("limit", .number (.natural 4)), ("inputs", .list []),
      ("state", .object [("label", .null), ("kind", .text "value")])] = some s.properties := by
    have hfour : UInt64.toFloat 4 = 4 := by decide +kernel
    unfold s
    rw [← hfour]
    rfl
  have hreader : reader text.toList = .ok (s, []) := by
    have htext : text.toList = '{' :: text.toList.tail := by
      unfold text
      cbv
    rw [htext]
    exact reader_eq hentries hproperties
  have hread : ofJson text = .ok s := Reader.run_eq hreader rfl
  exact ⟨survives_json.1 s hwritable (by decide) hnumbers, hread, survives_json.2 text s hread hnumbers⟩

end SpecNode

end Dataflow
