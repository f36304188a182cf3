import Dataflow.Proofs.Layout
import Mathlib.Data.List.Nodup

/-!
# Positions in a layout

The places of a plan form a tree: a place has children, one for each part of its plan, and a place
and its descendants take up an interval of numbers. What is told about the places of a plan is mostly
proved from the root on, from each place to its children (`sites_induct`).

The point of the order of numbers is `feeds_of_mem`: the output of a place goes to a place that was
numbered before it. Either that place is an ancestor, or it is a consumer of the component whose
producer the place is, and then all of the consumer was numbered before.
-/

namespace Dataflow.Plan

/-! ## Lists of parts -/

/-- The parts of a list with their numbers, from the given one on. -/
def numbered (i : Nat) : List Plan → List (Nat × Plan)
  | [] => []
  | plan :: rest => (i, plan) :: numbered (i + plan.size) rest

/-- The consumers that are nodes. -/
def consumerPlans : List Consumer → List Plan
  | [] => []
  | .broadcast _ :: rest => consumerPlans rest
  | .node plan :: rest => plan :: consumerPlans rest

/-- The producers that are nodes. -/
def producerPlans : List Producer → List Plan
  | [] => []
  | .listener _ :: rest => producerPlans rest
  | .node plan :: rest => plan :: producerPlans rest

/-- The plans of consumers are those that are nodes. -/
theorem mem_consumerPlans {consumers : List Consumer} {plan : Plan} :
    plan ∈ consumerPlans consumers ↔ .node plan ∈ consumers := by
  induction consumers with
  | nil => simp [consumerPlans]
  | cons consumer rest ih => cases consumer <;> simp [consumerPlans, ih]

/-- The plans of producers are those that are nodes. -/
theorem mem_producerPlans {producers : List Producer} {plan : Plan} :
    plan ∈ producerPlans producers ↔ .node plan ∈ producers := by
  induction producers with
  | nil => simp [producerPlans]
  | cons producer rest ih => cases producer <;> simp [producerPlans, ih]

/-- Consumers take as many numbers as their plans. -/
theorem consumersSize_eq (consumers : List Consumer) :
    consumersSize consumers = listSize (consumerPlans consumers) := by
  induction consumers with
  | nil => rfl
  | cons consumer rest ih => cases consumer <;> simp [consumersSize, consumerPlans, listSize, ih]

theorem producersSize_eq (producers : List Producer) :
    producersSize producers = listSize (producerPlans producers) := by
  induction producers with
  | nil => rfl
  | cons producer rest ih => cases producer <;> simp [producersSize, producerPlans, listSize, ih]

/-- The places of consumers are those of their plans, one plan after the other. -/
theorem consumerSites_eq (i owner : Nat) (consumers : List Consumer) :
    consumerSites i owner consumers =
      (numbered i (consumerPlans consumers)).flatMap fun part =>
        sites part.1 [.output (slotAt owner)] part.2 := by
  induction consumers generalizing i with
  | nil => rfl
  | cons consumer rest ih => cases consumer <;> simp [consumerSites, consumerPlans, numbered, ih]

/-- The places of producers are those of their plans, one plan after the other. -/
theorem producerSites_eq (i : Nat) (outputs : List Listener) (producers : List Producer) :
    producerSites i outputs producers =
      (numbered i (producerPlans producers)).flatMap fun part => sites part.1 outputs part.2 := by
  induction producers generalizing i with
  | nil => rfl
  | cons producer rest ih => cases producer <;> simp [producerSites, producerPlans, numbered, ih]

/-- The places of conditions are those of their plans, one plan after the other. -/
theorem listSites_eq (i : Nat) (plans : List Plan) :
    listSites i plans = (numbered i plans).flatMap fun part => sites part.1 [] part.2 := by
  induction plans generalizing i with
  | nil => rfl
  | cons plan rest ih => simp [listSites, numbered, ih]

/-- Producers are known by the first numbers of their plans. -/
theorem producerSlots_eq (i : Nat) (producers : List Producer) :
    producerSlots i producers =
      (numbered i (producerPlans producers)).map fun part => slotAt part.1 := by
  induction producers generalizing i with
  | nil => rfl
  | cons producer rest ih => cases producer <;> simp [producerSlots, producerPlans, numbered, ih]

theorem slotsOf_eq (i : Nat) (plans : List Plan) :
    slotsOf i plans = (numbered i plans).map fun part => slotAt part.1 := by
  induction plans generalizing i with
  | nil => rfl
  | cons plan rest ih => simp [slotsOf, numbered, ih]

/-- A component passes its input to its consumers, and sends it into the channels of its broadcasts. -/
theorem mem_targets {i : Nat} {consumers : List Consumer} {listener : Listener} :
    listener ∈ targets i consumers ↔
      (∃ channel, .broadcast channel ∈ consumers ∧ listener = .broadcast channel) ∨
        ∃ part ∈ numbered i (consumerPlans consumers), listener = .input (slotAt part.1) := by
  induction consumers generalizing i with
  | nil => simp [targets, consumerPlans, numbered]
  | cons consumer rest ih =>
    cases consumer with
    | broadcast channel =>
      simp only [targets, consumerPlans, List.mem_cons, ih, Consumer.broadcast.injEq]
      grind
    | node plan =>
      simp only [targets, consumerPlans, numbered, List.mem_cons, ih, reduceCtorEq, false_or]
      grind

/-- A part is among the plans, and its numbers are among those of the list. -/
theorem of_mem_numbered {i : Nat} {plans : List Plan} {part : Nat × Plan}
    (h : part ∈ numbered i plans) :
    part.2 ∈ plans ∧ i ≤ part.1 ∧ part.1 + part.2.size ≤ i + listSize plans := by
  induction plans generalizing i with
  | nil => cases h
  | cons plan rest ih =>
    rw [numbered] at h
    rw [listSize]
    rcases List.mem_cons.1 h with rfl | h
    · exact ⟨List.mem_cons_self .., Nat.le_refl _, by dsimp only; omega⟩
    · obtain ⟨hmem, hlow, hhigh⟩ := ih h
      exact ⟨List.mem_cons_of_mem _ hmem, by omega, by omega⟩

/-! ## Places and their children -/

namespace Site

/-- The first number behind the place and its descendants. -/
def stop (site : Site) : Nat := site.number + site.plan.size

/-- The place and its descendants. -/
def below (site : Site) : List Site := sites site.number site.outputs site.plan

/-- The places of the parts of a plan that has the given number. -/
def childrenOf (i : Nat) : Plan → List Site
  | .component consumers producers =>
    ((numbered (i + 1) (consumerPlans consumers)).map fun part =>
        ⟨part.1, [.output (slotAt i)], part.2⟩) ++
      (numbered (i + 1 + consumersSize consumers) (producerPlans producers)).map fun part =>
        ⟨part.1, targets (i + 1) consumers, part.2⟩
  | .conditional conditions positive negative? =>
    ⟨i + 1, [.output (slotAt i)], positive⟩ ::
      ((negative?.toList.map fun negative =>
          ⟨i + 1 + positive.size, [.output (slotAt i)], negative⟩) ++
        (numbered (i + 1 + positive.size + optionalSize negative?) conditions).map fun part =>
          ⟨part.1, [], part.2⟩)
  | .constant _ => []
  | .leaf _ state? => state?.toList.map fun state => ⟨i + 1, [.state (slotAt i)], state⟩

/-- The places of the parts of a place. -/
abbrev children (site : Site) : List Site := childrenOf site.number site.plan

section

variable {i : Nat} {part : Nat × Plan}

/-- A consumer is a child of its component, and puts out to it. -/
theorem consumer_mem {consumers : List Consumer} {producers : List Producer}
    (hpart : part ∈ numbered (i + 1) (consumerPlans consumers)) :
    ⟨part.1, [.output (slotAt i)], part.2⟩ ∈ childrenOf i (.component consumers producers) :=
  List.mem_append_left _ (List.mem_map.2 ⟨part, hpart, rfl⟩)

/-- A producer is a child of its component, and puts out to its targets. -/
theorem producer_mem {consumers : List Consumer} {producers : List Producer}
    (hpart : part ∈ numbered (i + 1 + consumersSize consumers) (producerPlans producers)) :
    ⟨part.1, targets (i + 1) consumers, part.2⟩ ∈
      childrenOf i (.component consumers producers) :=
  List.mem_append_right _ (List.mem_map.2 ⟨part, hpart, rfl⟩)

variable {conditions : List Plan} {positive : Plan}

/-- The branch of a conditional is a child of it, and puts out to it. -/
theorem positive_mem {negative? : Option Plan} :
    ⟨i + 1, [.output (slotAt i)], positive⟩ ∈
      childrenOf i (.conditional conditions positive negative?) :=
  List.mem_cons_self ..

/-- So is the other branch, if there is one. -/
theorem negative_mem {negative : Plan} :
    ⟨i + 1 + positive.size, [.output (slotAt i)], negative⟩ ∈
      childrenOf i (.conditional conditions positive (some negative)) :=
  List.mem_cons_of_mem _ (List.mem_append_left _ (List.mem_cons_self ..))

/-- A condition is a child of its conditional, and puts out to nobody. -/
theorem condition_mem {negative? : Option Plan}
    (hpart : part ∈ numbered (i + 1 + positive.size + optionalSize negative?) conditions) :
    ⟨part.1, [], part.2⟩ ∈ childrenOf i (.conditional conditions positive negative?) :=
  List.mem_cons_of_mem _ (List.mem_append_right _ (List.mem_map.2 ⟨part, hpart, rfl⟩))

/-- A state is a child of its leaf, and puts out to its cell. -/
theorem state_mem {spec : SpecNode} {state : Plan} :
    ⟨i + 1, [.state (slotAt i)], state⟩ ∈ childrenOf i (.leaf spec (some state)) :=
  List.mem_cons_self ..

end

end Site

theorem optionalSites_eq (i : Nat) (outputs : List Listener) (plan? : Option Plan) :
    optionalSites i outputs plan? =
      (plan?.toList.map fun plan => (⟨i, outputs, plan⟩ : Site)).flatMap Site.below := by
  cases plan? <;> simp [optionalSites, Site.below]

/-- The places of a plan are its own and those of its parts. -/
theorem sites_eq (i : Nat) (outputs : List Listener) (plan : Plan) :
    sites i outputs plan =
      ⟨i, outputs, plan⟩ :: (Site.childrenOf i plan).flatMap Site.below := by
  cases plan with
  | component consumers producers =>
    rw [sites, consumerSites_eq, producerSites_eq, Site.childrenOf, List.flatMap_append,
      List.flatMap_map, List.flatMap_map]
    rfl
  | conditional conditions positive negative? =>
    rw [sites, listSites_eq, optionalSites_eq, Site.childrenOf, List.flatMap_cons,
      List.flatMap_append, List.flatMap_map, List.flatMap_map, List.append_assoc]
    rfl
  | constant value => rfl
  | leaf spec state? => rw [sites, optionalSites_eq, Site.childrenOf]

/-- What holds of a plan's own place and is passed on to children holds of all places. -/
theorem sites_induct {motive : Site → Prop} {plan : Plan}
    (hstep : ∀ parent child, motive parent → child ∈ parent.children → motive child)
    {i : Nat} {outputs : List Listener} (hroot : motive ⟨i, outputs, plan⟩) :
    ∀ site ∈ sites i outputs plan, motive site := by
  -- The places below some children, if the motive is known for the plan of each of them.
  have hparts : ∀ children : List Site, (∀ child ∈ children, motive child) →
      (∀ child ∈ children, ∀ outputs i, motive ⟨i, outputs, child.plan⟩ →
        ∀ site ∈ sites i outputs child.plan, motive site) →
      ∀ site ∈ children.flatMap Site.below, motive site := by
    intro children hchildren ih site hsite
    obtain ⟨child, hchild, hsite⟩ := List.mem_flatMap.1 hsite
    exact ih child hchild _ _ (hchildren child hchild) site hsite
  induction plan using Plan.induct generalizing i outputs with
  | component consumers producers ihc ihp =>
    rw [sites_eq, List.forall_mem_cons]
    refine ⟨hroot, hparts _ (fun child => hstep _ child hroot) fun child hchild outputs i hown => ?_⟩
    rcases List.mem_append.1 hchild with hchild | hchild
    · obtain ⟨part, hpart, rfl⟩ := List.mem_map.1 hchild
      exact ihc _ (mem_consumerPlans.1 (of_mem_numbered hpart).1) hown
    · obtain ⟨part, hpart, rfl⟩ := List.mem_map.1 hchild
      exact ihp _ (mem_producerPlans.1 (of_mem_numbered hpart).1) hown
  | conditional conditions positive negative? ihs ihp ihn =>
    rw [sites_eq, List.forall_mem_cons]
    refine ⟨hroot, hparts _ (fun child => hstep _ child hroot) fun child hchild outputs i hown => ?_⟩
    rcases List.mem_cons.1 hchild with rfl | hchild
    · exact ihp hown
    rcases List.mem_append.1 hchild with hchild | hchild
    · obtain ⟨negative, hnegative, rfl⟩ := List.mem_map.1 hchild
      exact ihn _ (Option.mem_toList.1 hnegative) hown
    · obtain ⟨part, hpart, rfl⟩ := List.mem_map.1 hchild
      exact ihs _ (of_mem_numbered hpart).1 hown
  | constant value =>
    rw [sites_eq, List.forall_mem_cons]
    exact ⟨hroot, by simp [Site.childrenOf]⟩
  | leaf spec state? ih =>
    rw [sites_eq, List.forall_mem_cons]
    refine ⟨hroot, hparts _ (fun child => hstep _ child hroot) fun child hchild outputs i hown => ?_⟩
    obtain ⟨state, hstate, rfl⟩ := List.mem_map.1 hchild
    exact ih _ (Option.mem_toList.1 hstate) hown

/-- The first place of a plan is that of its root. -/
theorem mem_sites_self (i : Nat) (outputs : List Listener) (plan : Plan) :
    ⟨i, outputs, plan⟩ ∈ sites i outputs plan := by
  rw [sites_eq]
  exact List.mem_cons_self ..

/-- The descendants of a place are places of the plan. -/
theorem below_subset {i : Nat} {outputs : List Listener} {plan : Plan} {site : Site}
    (h : site ∈ sites i outputs plan) : site.below ⊆ sites i outputs plan := by
  refine sites_induct (motive := fun site => site.below ⊆ sites i outputs plan)
    (fun parent child hparent hchild => ?_) (List.Subset.refl _) site h
  refine List.Subset.trans (fun other hother => ?_) hparent
  rw [Site.below, sites_eq]
  exact List.mem_cons_of_mem _ (List.mem_flatMap.2 ⟨child, hchild, hother⟩)

/-- Children of places of a plan are places of it. -/
theorem child_mem {i : Nat} {outputs : List Listener} {plan : Plan} {parent child : Site}
    (h : parent ∈ sites i outputs plan) (hchild : child ∈ parent.children) :
    child ∈ sites i outputs plan := by
  refine below_subset h ?_
  rw [Site.below, sites_eq]
  exact List.mem_cons_of_mem _ (List.mem_flatMap.2 ⟨child, hchild, mem_sites_self ..⟩)

/-- Every plan has a node at least. -/
theorem size_pos (plan : Plan) : 0 < plan.size := by
  cases plan <;> simp only [size] <;> omega

/-- The numbers of a child and its descendants lie behind that of the parent, and among those of the
parent's descendants. -/
theorem Site.child_bounds {parent child : Site} (h : child ∈ parent.children) :
    parent.number < child.number ∧ child.stop ≤ parent.stop := by
  obtain ⟨i, outputs, plan⟩ := parent
  change child ∈ childrenOf i plan at h
  show i < child.number ∧ child.number + child.plan.size ≤ i + plan.size
  cases plan with
  | component consumers producers =>
    rw [size, consumersSize_eq, producersSize_eq]
    rcases List.mem_append.1 h with h | h
    · obtain ⟨part, hpart, rfl⟩ := List.mem_map.1 h
      obtain ⟨-, hlow, hhigh⟩ := of_mem_numbered hpart
      dsimp only
      omega
    · obtain ⟨part, hpart, rfl⟩ := List.mem_map.1 h
      obtain ⟨-, hlow, hhigh⟩ := of_mem_numbered hpart
      rw [consumersSize_eq] at hlow hhigh
      dsimp only
      omega
  | conditional conditions positive negative? =>
    rw [size]
    rcases List.mem_cons.1 h with rfl | h
    · dsimp only
      omega
    rcases List.mem_append.1 h with h | h
    · obtain ⟨negative, hnegative, rfl⟩ := List.mem_map.1 h
      cases Option.mem_toList.1 hnegative
      rw [optionalSize]
      dsimp only
      omega
    · obtain ⟨part, hpart, rfl⟩ := List.mem_map.1 h
      obtain ⟨-, hlow, hhigh⟩ := of_mem_numbered hpart
      dsimp only
      omega
  | constant value => cases h
  | leaf spec state? =>
    obtain ⟨state, hstate, rfl⟩ := List.mem_map.1 h
    cases Option.mem_toList.1 hstate
    rw [size, optionalSize]
    dsimp only
    omega

/-- A place has a number below those that come after it. -/
theorem Site.number_lt_stop (site : Site) : site.number < site.stop := by
  have := size_pos site.plan
  simp only [stop]
  omega

/-- The places of a plan have numbers of its interval, and end within it. -/
theorem sites_bounds {i : Nat} {outputs : List Listener} {plan : Plan} {site : Site}
    (h : site ∈ sites i outputs plan) : i ≤ site.number ∧ site.stop ≤ i + plan.size := by
  refine sites_induct (motive := fun site => i ≤ site.number ∧ site.stop ≤ i + plan.size)
    (fun parent child hparent hchild => ?_) ⟨Nat.le_refl i, Nat.le_refl _⟩ site h
  have := Site.child_bounds hchild
  omega

/-! ## Numbers -/

/-- The places of parts are numbered one after the other, without gaps. -/
theorem flatMap_below_numbers {i : Nat} {plans : List Plan} {outputs : List Listener}
    (ih : ∀ plan ∈ plans, ∀ i outputs,
      (sites i outputs plan).map Site.number = List.range' i plan.size) :
    (((numbered i plans).map fun part => (⟨part.1, outputs, part.2⟩ : Site)).flatMap
      Site.below).map Site.number = List.range' i (listSize plans) := by
  induction plans generalizing i with
  | nil => rfl
  | cons plan rest ihr =>
    rw [numbered, List.map_cons, List.flatMap_cons, List.map_append, listSize,
      ihr fun plan hplan => ih plan (List.mem_cons_of_mem _ hplan), Site.below,
      ih plan (List.mem_cons_self ..), List.range'_append_1]

/-- The places of a plan are numbered without a gap. -/
theorem map_number_sites (plan : Plan) : ∀ i outputs,
    (sites i outputs plan).map Site.number = List.range' i plan.size := by
  have hone : ∀ i n, i :: List.range' (i + 1) n = List.range' i (1 + n) := fun i n => by
    rw [Nat.add_comm 1 n, List.range'_succ]
  have hoptional : ∀ (plan? : Option Plan), (∀ plan, plan? = some plan → ∀ i outputs,
      (sites i outputs plan).map Site.number = List.range' i plan.size) → ∀ i outputs,
      ((plan?.toList.map fun plan => (⟨i, outputs, plan⟩ : Site)).flatMap Site.below).map Site.number
        = List.range' i (optionalSize plan?) := by
    intro plan? ih i outputs
    cases plan? with
    | none => rfl
    | some plan =>
      rw [Option.toList_some, List.map_singleton, List.flatMap_singleton, Site.below]
      exact ih plan rfl i outputs
  induction plan using Plan.induct with
  | component consumers producers ihc ihp =>
    intro i outputs
    rw [sites_eq, List.map_cons, Site.childrenOf, List.flatMap_append, List.map_append,
      flatMap_below_numbers fun plan hplan => ihc plan (mem_consumerPlans.1 hplan),
      flatMap_below_numbers fun plan hplan => ihp plan (mem_producerPlans.1 hplan),
      consumersSize_eq, List.range'_append_1, hone, size, consumersSize_eq, producersSize_eq,
      Nat.add_assoc]
  | conditional conditions positive negative? ihs ihp ihn =>
    intro i outputs
    rw [sites_eq, List.map_cons, Site.childrenOf, List.flatMap_cons, List.flatMap_append,
      List.map_append, List.map_append, hoptional _ ihn, flatMap_below_numbers ihs, Site.below,
      ihp, List.range'_append_1, List.range'_append_1, hone, size]
    congr 1
    omega
  | constant value => exact fun _ _ => rfl
  | leaf spec state? ih =>
    intro i outputs
    rw [sites_eq, List.map_cons, Site.childrenOf, hoptional _ ih, hone, size]

/-- A place is known by its number. -/
theorem site_unique {i : Nat} {outputs : List Listener} {plan : Plan} {site site' : Site}
    (h : site ∈ sites i outputs plan) (h' : site' ∈ sites i outputs plan)
    (hnumber : site.number = site'.number) : site = site' := by
  have hnodup : ((sites i outputs plan).map Site.number).Nodup := by
    rw [map_number_sites]
    exact List.nodup_range'
  exact List.inj_on_of_nodup_map hnodup h h' hnumber

/-- A place is numbered by how many places come before it. -/
theorem number_of_append {i : Nat} {outputs : List Listener} {plan : Plan} {before after : List Site}
    {site : Site} (h : before ++ site :: after = sites i outputs plan) :
    site.number = i + before.length := by
  have hlength := congrArg List.length h
  rw [length_sites, List.length_append, List.length_cons] at hlength
  have hnumbers := map_number_sites plan i outputs
  rw [← h, List.map_append, List.map_cons] at hnumbers
  have hat := congrArg (·[before.length]?) hnumbers
  rw [List.getElem?_append_right (by simp), List.length_map, Nat.sub_self,
    List.getElem?_range' (by omega), Nat.one_mul] at hat
  exact Option.some.inj hat

/-- Every number in the range of a plan is that of a place. -/
theorem exists_site {i k : Nat} (outputs : List Listener) (plan : Plan) (h : i ≤ k)
    (h' : k < i + plan.size) : ∃ site ∈ sites i outputs plan, site.number = k := by
  have hmem : k ∈ (sites i outputs plan).map Site.number := by
    rw [map_number_sites, List.mem_range'_1]
    exact ⟨h, h'⟩
  exact List.mem_map.1 hmem

/-! ## Readings of places -/

section Reads

variable {shape? : String → Option LeafShape} {scope : Scope}

/-- The plans of consumers read those that are no broadcasts. -/
theorem ReadsConsumers.parts {consumers : List Consumer} {cs : List SpecNode}
    (h : ReadsConsumers shape? scope consumers cs) :
    List.Forall₂ (fun plan c => plan.Reads shape? scope c) (consumerPlans consumers)
      (cs.filter fun c => ¬c.Is .broadcast) := by
  induction consumers generalizing cs with
  | nil =>
    obtain rfl : cs = [] := h
    exact .nil
  | cons consumer rest ih =>
    obtain ⟨c, cs, rfl, hc, hcs⟩ := h
    cases consumer with
    | broadcast channel =>
      rw [consumerPlans, List.filter_cons_of_neg (by simpa using hc.1)]
      exact ih hcs
    | node plan =>
      rw [consumerPlans, List.filter_cons_of_pos (by simpa using hc.1)]
      exact .cons hc.2 (ih hcs)

/-- The plans of producers read those that are no listeners. -/
theorem ReadsProducers.parts {producers : List Producer} {ps : List SpecNode}
    (h : ReadsProducers shape? scope producers ps) :
    List.Forall₂ (fun plan p => plan.Reads shape? scope p) (producerPlans producers)
      (ps.filter fun p => ¬p.Is .listener) := by
  induction producers generalizing ps with
  | nil =>
    obtain rfl : ps = [] := h
    exact .nil
  | cons producer rest ih =>
    obtain ⟨p, ps, rfl, hp, hps⟩ := h
    cases producer with
    | listener key =>
      rw [producerPlans, List.filter_cons_of_neg (by simpa using hp.1)]
      exact ih hps
    | node plan =>
      rw [producerPlans, List.filter_cons_of_pos (by simpa using hp.1)]
      exact .cons hp.2 (ih hps)

/-- A plan that may be absent reads what may be. -/
theorem ReadsOptional.parts {plan? : Option Plan} {s? : Option SpecNode}
    (h : ReadsOptional shape? scope plan? s?) :
    List.Forall₂ (fun plan s => plan.Reads shape? scope s) plan?.toList s?.toList := by
  cases plan? with
  | none =>
    obtain rfl : s? = none := h
    exact .nil
  | some plan =>
    obtain ⟨s, rfl, hs⟩ := h
    exact .cons hs .nil

/-- Giving numbers to parts, and the listeners of their places, leaves the plans as they are. -/
theorem forall₂_numbered {R : Plan → SpecNode → Prop} {plans : List Plan} {ss : List SpecNode}
    (h : List.Forall₂ R plans ss) (i : Nat) (outputs : List Listener) :
    List.Forall₂ (fun (site : Site) s => R site.plan s)
      ((numbered i plans).map fun part => ⟨part.1, outputs, part.2⟩) ss := by
  induction h generalizing i with
  | nil => exact .nil
  | cons hs _ ih => exact .cons hs (ih _)

/-- The plans of the children of a place are readings of the parts of its specification, in order. -/
theorem Site.reads_children {parent : Site} {s : SpecNode}
    (h : parent.plan.Reads shape? scope s) :
    List.Forall₂ (fun (child : Site) part => child.plan.Reads shape? scope part) parent.children
      s.parts := by
  obtain ⟨i, outputs, plan⟩ := parent
  show List.Forall₂ _ (childrenOf i plan) _
  cases plan with
  | component consumers producers =>
    obtain ⟨hcomponent, ⟨cs, hconsumers, hcs⟩, ps, hproducers, hps⟩ := h
    rw [SpecNode.parts_of_component hcomponent, SpecNode.nodesOf_of_nodes hconsumers,
      SpecNode.nodesOf_of_nodes hproducers]
    exact List.rel_append (forall₂_numbered hcs.parts _ _) (forall₂_numbered hps.parts _ _)
  | conditional conditions positive negative? =>
    obtain ⟨⟨cs, hconditions, hcs, -⟩, ⟨p, hpositive, hp⟩, n?, hn, hkind⟩ := h
    -- The parts of a gate and of a switch, in one form.
    have hparts : s.parts = p :: (n?.toList ++ cs) := by
      rcases hkind with ⟨hgate, rfl⟩ | ⟨hswitch, n, rfl, hnegative⟩
      · rw [SpecNode.parts_of_gate hgate, SpecNode.nodeOf_of_node hpositive,
          SpecNode.nodesOf_of_nodes hconditions]
        rfl
      · rw [SpecNode.parts_of_switch hswitch, SpecNode.nodeOf_of_node hpositive,
          SpecNode.nodeOf_of_node hnegative, SpecNode.nodesOf_of_nodes hconditions]
        rfl
    have hnegative : List.Forall₂ (fun (child : Site) part => child.plan.Reads shape? scope part)
        (negative?.toList.map fun negative =>
          ⟨i + 1 + positive.size, [.output (slotAt i)], negative⟩) n?.toList :=
      List.forall₂_map_left_iff.2 hn.parts
    rw [hparts]
    exact .cons hp (List.rel_append hnegative (forall₂_numbered (readsAll_iff.1 hcs).flip _ _))
  | constant value =>
    rw [SpecNode.parts_of_value h.1]
    exact .nil
  | leaf spec state? =>
    obtain ⟨-, hleaf, -, n?, hstate, hn⟩ := h
    rw [SpecNode.parts_of_leaf hleaf, SpecNode.nodeOf_of_state hstate]
    exact List.forall₂_map_left_iff.2 hn.parts

/-- The plan of a child is the reading of a part of the specification. -/
theorem Site.reads_child {parent child : Site} {s : SpecNode}
    (h : parent.plan.Reads shape? scope s) (hchild : child ∈ parent.children) :
    ∃ part ∈ s.parts, child.plan.Reads shape? scope part := by
  have hchildren := reads_children h
  generalize parent.children = children at hchild hchildren
  generalize s.parts = parts at hchildren
  induction hchildren with
  | nil => cases hchild
  | @cons first part rest parts hfirst _ ih =>
    rcases List.mem_cons.1 hchild with rfl | hchild
    · exact ⟨part, List.mem_cons_self .., hfirst⟩
    · obtain ⟨other, hother, hreads⟩ := ih hchild
      exact ⟨other, List.mem_cons_of_mem _ hother, hreads⟩

/-- The places of a reading are readings of the visited nodes of its specification, in order. -/
theorem Reads.sites {plan : Plan} {s : SpecNode} (h : plan.Reads shape? scope s) (i : Nat)
    (outputs : List Listener) :
    List.Forall₂ (fun (site : Site) t => site.plan.Reads shape? scope t) (plan.sites i outputs)
      s.visited := by
  -- The parts of a plan are the plans of its children, not subterms, so this goes by size.
  induction hn : plan.size using Nat.strongRecOn generalizing plan s i outputs with
  | ind n ih =>
    subst hn
    have hchildren := (List.forall₂_and_left _ _).2
      ⟨fun child hchild => hchild, @Site.reads_children shape? scope ⟨i, outputs, plan⟩ s h⟩
    rw [sites_eq, SpecNode.visited_eq]
    refine .cons h (List.rel_flatMap hchildren ?_)
    rintro child part ⟨hchild, hreads⟩
    have := @Site.child_bounds ⟨i, outputs, plan⟩ child hchild
    simp only [Site.stop] at this
    exact ih child.plan.size (by omega) hreads child.number child.outputs rfl

/-- A reading has as many nodes as its specification has visited nodes. -/
theorem Reads.size_eq {plan : Plan} {s : SpecNode} (h : plan.Reads shape? scope s) :
    plan.size = s.visited.length := by
  rw [← length_sites 0 [] plan]
  exact (h.sites 0 []).length_eq

/-- Every place is the reading of a visited node of the specification. -/
theorem reads_of_mem {plan : Plan} {s : SpecNode} (h : plan.Reads shape? scope s) {i : Nat}
    {outputs : List Listener} {site : Site} (hsite : site ∈ sites i outputs plan) :
    ∃ t ∈ s.visited, site.plan.Reads shape? scope t := by
  refine sites_induct (motive := fun site => ∃ t ∈ s.visited, site.plan.Reads shape? scope t)
    (fun parent child hparent hchild => ?_) ⟨s, SpecNode.mem_visited_self s, h⟩ site hsite
  obtain ⟨t, ht, hreads⟩ := hparent
  obtain ⟨part, hpart, hreads'⟩ := Site.reads_child hreads hchild
  exact ⟨part, SpecNode.part_mem_visited ht hpart, hreads'⟩

end Reads

/-! ## Where outputs go -/

/-- The places of a whole plan, whose output goes to the output log. -/
abbrev layout (root : Plan) : List Site := sites 0 [.sink] root

/-- Whether the plan is a component or a conditional. -/
def IsInner : Plan → Prop
  | .component .. | .conditional .. => True
  | _ => False

/-- Whether the plan is a component that sends into the channel. -/
def Broadcasts (channel : ChannelId) (plan : Plan) : Prop :=
  ∃ consumers producers, plan = .component consumers producers ∧ .broadcast channel ∈ consumers

/-- A listener that the output of a place can have, with what is known of it. -/
inductive Feeds (root : Plan) (site : Site) : Listener → Prop
  | sink : Feeds root site .sink
  /-- A part whose output leaves the place that it is a part of. -/
  | output {parent : Site} (hmem : parent ∈ root.layout) (hinner : parent.plan.IsInner)
    (hchild : site ∈ parent.children) : Feeds root site (.output (slotAt parent.number))
  /-- The state of a leaf, which is numbered next to it. -/
  | state {leaf : Site} {spec : SpecNode} (hmem : leaf ∈ root.layout)
    (hplan : leaf.plan = .leaf spec (some site.plan)) (hnumber : site.number = leaf.number + 1) :
    Feeds root site (.state (slotAt leaf.number))
  /-- A producer of a component, all of whose consumers come first. -/
  | input {consumer : Site} (hmem : consumer ∈ root.layout) (hstop : consumer.stop ≤ site.number) :
    Feeds root site (.input (slotAt consumer.number))
  | broadcast {component : Site} {channel : ChannelId} (hmem : component ∈ root.layout)
    (hbroadcasts : component.plan.Broadcasts channel) : Feeds root site (.broadcast channel)

/-- What the consumers of a component listen with. -/
theorem of_mem_targets {root : Plan} {component : Site} {consumers : List Consumer}
    {producers : List Producer} (hmem : component ∈ root.layout)
    (hplan : component.plan = .component consumers producers) {listener : Listener}
    (h : listener ∈ targets (component.number + 1) consumers) :
    (∃ channel, listener = .broadcast channel ∧ component.plan.Broadcasts channel) ∨
      ∃ consumer ∈ root.layout, listener = .input (slotAt consumer.number) ∧
        consumer.stop ≤ component.number + 1 + consumersSize consumers := by
  rcases mem_targets.1 h with ⟨channel, hchannel, rfl⟩ | ⟨part, hpart, rfl⟩
  · exact .inl ⟨channel, rfl, consumers, producers, hplan, hchannel⟩
  · refine .inr ⟨⟨part.1, [.output (slotAt component.number)], part.2⟩, child_mem hmem ?_, rfl, ?_⟩
    · rw [Site.children, hplan]
      exact Site.consumer_mem hpart
    · rw [consumersSize_eq]
      exact (of_mem_numbered hpart).2.2

/-- The outputs of a child go to its parent, or to the targets of the component that it produces for. -/
theorem feeds_child {root : Plan} {parent child : Site} (hmem : parent ∈ root.layout)
    (hchild : child ∈ parent.children) : ∀ listener ∈ child.outputs, Feeds root child listener := by
  -- Most children have their parent as the only listener.
  have hown : parent.plan.IsInner → Feeds root child (.output (slotAt parent.number)) := fun h =>
    .output hmem h hchild
  cases hplan : parent.plan with
  | component consumers producers =>
    have hown := hown (by rw [hplan]; trivial)
    rw [Site.children, hplan] at hchild
    rcases List.mem_append.1 hchild with hchild | hchild
    · obtain ⟨part, hpart, rfl⟩ := List.mem_map.1 hchild
      exact List.forall_mem_singleton.2 hown
    · obtain ⟨part, hpart, rfl⟩ := List.mem_map.1 hchild
      intro listener hlistener
      rcases of_mem_targets hmem hplan hlistener with ⟨channel, rfl, h⟩ | ⟨consumer, h, rfl, hstop⟩
      · exact .broadcast hmem h
      -- All consumers of a component are numbered before the first producer.
      · exact .input h (Nat.le_trans hstop (of_mem_numbered hpart).2.1)
  | conditional conditions positive negative? =>
    have hown := hown (by rw [hplan]; trivial)
    rw [Site.children, hplan] at hchild
    rcases List.mem_cons.1 hchild with rfl | hchild
    · exact List.forall_mem_singleton.2 hown
    rcases List.mem_append.1 hchild with hchild | hchild
    · obtain ⟨negative, -, rfl⟩ := List.mem_map.1 hchild
      exact List.forall_mem_singleton.2 hown
    · obtain ⟨part, -, rfl⟩ := List.mem_map.1 hchild
      exact List.forall_mem_nil _
  | constant value =>
    rw [Site.children, hplan] at hchild
    cases hchild
  | leaf spec state? =>
    rw [Site.children, hplan] at hchild
    obtain ⟨state, hstate, rfl⟩ := List.mem_map.1 hchild
    cases Option.mem_toList.1 hstate
    exact List.forall_mem_singleton.2 (.state hmem hplan rfl)

/-- **Outputs go back.** Every listener of a place is one that the order of numbers explains. -/
theorem feeds_of_mem {root : Plan} {site : Site} (h : site ∈ root.layout) :
    ∀ listener ∈ site.outputs, Feeds root site listener := by
  refine (sites_induct (motive := fun site => site ∈ root.layout ∧
    ∀ listener ∈ site.outputs, Feeds root site listener) (fun parent child hparent hchild => ?_)
    ⟨mem_sites_self .., List.forall_mem_singleton.2 .sink⟩ site h).2
  exact ⟨child_mem hparent.1 hchild, feeds_child hparent.1 hchild⟩

/-! ## Who hears what -/

/-- Whether a place is a component with a listener, and its consumers are those who hear. -/
def Site.Hears (site : Site) (heard : String × List Listener) : Prop :=
  ∃ consumers producers, site.plan = .component consumers producers ∧
    .listener heard.1 ∈ producers ∧ heard.2 = targets (site.number + 1) consumers

/-- What producers hear is heard by a listener among them or somewhere below one that is a node. -/
theorem mem_producersHeard {i : Nat} {outputs : List Listener} {producers : List Producer}
    {entry : String × List Listener} (h : entry ∈ producersHeard i outputs producers) :
    (.listener entry.1 ∈ producers ∧ entry.2 = outputs) ∨
      ∃ part ∈ numbered i (producerPlans producers), entry ∈ heard part.1 part.2 := by
  induction producers generalizing i with
  | nil => cases h
  | cons producer rest ih =>
    cases producer with
    | listener key =>
      rcases List.mem_cons.1 h with rfl | h
      · exact .inl ⟨List.mem_cons_self .., rfl⟩
      · exact (ih h).imp (fun h => ⟨List.mem_cons_of_mem _ h.1, h.2⟩) id
    | node plan =>
      rcases List.mem_append.1 h with h | h
      · exact .inr ⟨(i, plan), List.mem_cons_self .., h⟩
      · refine (ih h).imp (fun h => ⟨List.mem_cons_of_mem _ h.1, h.2⟩) ?_
        rintro ⟨part, hpart, h⟩
        exact ⟨part, List.mem_cons_of_mem _ hpart, h⟩

/-- What consumers hear is heard somewhere below one that is a node. -/
theorem mem_consumersHeard {i : Nat} {consumers : List Consumer} {entry : String × List Listener}
    (h : entry ∈ consumersHeard i consumers) :
    ∃ part ∈ numbered i (consumerPlans consumers), entry ∈ heard part.1 part.2 := by
  induction consumers generalizing i with
  | nil => cases h
  | cons consumer rest ih =>
    cases consumer with
    | broadcast channel => exact ih h
    | node plan =>
      rcases List.mem_append.1 h with h | h
      · exact ⟨(i, plan), List.mem_cons_self .., h⟩
      · obtain ⟨part, hpart, h⟩ := ih h
        exact ⟨part, List.mem_cons_of_mem _ hpart, h⟩

/-- What conditions hear is heard somewhere below one. -/
theorem mem_listHeard {i : Nat} {plans : List Plan} {entry : String × List Listener}
    (h : entry ∈ listHeard i plans) : ∃ part ∈ numbered i plans, entry ∈ heard part.1 part.2 := by
  induction plans generalizing i with
  | nil => cases h
  | cons plan rest ih =>
    rcases List.mem_append.1 h with h | h
    · exact ⟨(i, plan), List.mem_cons_self .., h⟩
    · obtain ⟨part, hpart, h⟩ := ih h
      exact ⟨part, List.mem_cons_of_mem _ hpart, h⟩

/-- What is heard at a place is heard by a listener of its own or at a child. -/
theorem mem_heard_cases {site : Site} {entry : String × List Listener}
    (h : entry ∈ heard site.number site.plan) :
    site.Hears entry ∨ ∃ child ∈ site.children, entry ∈ heard child.number child.plan := by
  obtain ⟨i, outputs, plan⟩ := site
  change entry ∈ heard i plan at h
  cases plan with
  | component consumers producers =>
    rcases List.mem_append.1 h with h | h
    · obtain ⟨part, hpart, h⟩ := mem_consumersHeard h
      exact .inr ⟨_, Site.consumer_mem hpart, h⟩
    · rcases mem_producersHeard h with ⟨hkey, houtputs⟩ | ⟨part, hpart, h⟩
      · exact .inl ⟨consumers, producers, rfl, hkey, houtputs⟩
      · exact .inr ⟨_, Site.producer_mem hpart, h⟩
  | conditional conditions positive negative? =>
    refine .inr ?_
    rcases List.mem_append.1 h with h | h
    · rcases List.mem_append.1 h with h | h
      · exact ⟨_, Site.positive_mem, h⟩
      · cases negative? with
        | none => cases h
        | some negative => exact ⟨_, Site.negative_mem, h⟩
    · obtain ⟨part, hpart, h⟩ := mem_listHeard h
      exact ⟨_, Site.condition_mem hpart, h⟩
  | constant value => cases h
  | leaf spec state? =>
    cases state? with
    | none => cases h
    | some state => exact .inr ⟨_, Site.state_mem, h⟩

/-- Whatever is heard is heard by a listener of some place. -/
theorem mem_heard {i : Nat} {outputs : List Listener} {plan : Plan}
    {entry : String × List Listener} (h : entry ∈ heard i plan) :
    ∃ site ∈ sites i outputs plan, site.Hears entry := by
  -- Going down from the whole plan ends at the listener, since plans get smaller on the way.
  have hdescend : ∀ n, ∀ site ∈ sites i outputs plan, site.plan.size ≤ n →
      entry ∈ heard site.number site.plan → ∃ site ∈ sites i outputs plan, site.Hears entry := by
    intro n
    induction n with
    | zero =>
      intro site _ hsize
      have := size_pos site.plan
      omega
    | succ n ih =>
      intro site hsite hsize h
      rcases mem_heard_cases h with h | ⟨child, hchild, h⟩
      · exact ⟨site, hsite, h⟩
      · have := Site.child_bounds hchild
        simp only [Site.stop] at this
        exact ih child (child_mem hsite hchild) (by omega) h
  exact hdescend plan.size _ (mem_sites_self i outputs plan) (Nat.le_refl _) h

end Dataflow.Plan
