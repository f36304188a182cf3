import Mathlib
import Dataflow.Leaf.Script
import Dataflow.Proofs.Watching

/-!
# The phases of a build

Declaring asks a registry for shapes alone, so what it fails with is told by them (`FailsDeclaring`), and
it fails in ways of its own (`failsOwn_declare`): a defect that declaring finds comes before every refusal
of a factory and every key that nothing declares, wherever these are. Wiring asks for no more than
whether a factory refuses a specification and why: seen without what they are, the leaves of registries
whose factories accept and refuse alike are the same (`erased`). And nothing is reported before
activating, which is where leaves are first run and asked.
-/

namespace Dataflow

/-! ## How declaring fails -/

/-- Whether the failure is one of declaring. -/
def BuildError.IsOfDeclaring : BuildError → Prop
  | .scope (.unknownKey _) | .leaf .. | .run _ => False
  | _ => True

namespace Plan

variable {α β : Type}

/-- Wherever it begins, the act fails in the ways of declaring only. -/
def FailsOwn (act : Declare α) : Prop := ∀ d e, act.run d = .error e → e.IsOfDeclaring

namespace FailsOwn

/-- An act that never fails fails in no other way. -/
theorem pure (a : α) : FailsOwn (Pure.pure a) := fun _ _ h => by cases h

/-- A failure of declaring may be thrown. -/
theorem throw {e : BuildError} (he : e.IsOfDeclaring) : FailsOwn (throw e : Declare α) := fun _ _ h => by
  cases h
  exact he

/-- If one of two acts in a row fails, it is the first or the second. -/
theorem bind {act : Declare α} {f : α → Declare β} (hact : FailsOwn act) (hf : ∀ a, FailsOwn (f a)) :
    FailsOwn (act >>= f) := by
  intro d e h
  rw [StateT.run_bind] at h
  cases hrun : act.run d with
  | error e' =>
    rw [hrun] at h
    cases h
    exact hact d e hrun
  | ok r =>
    rw [hrun] at h
    exact hf r.1 r.2 e h

/-- An act for each element of a list fails as one of them does. -/
theorem mapM {f : α → Declare β} {xs : List α} (hf : ∀ x, FailsOwn (f x)) : FailsOwn (xs.mapM f) := by
  induction xs with
  | nil => exact List.mapM_nil (m := Declare) ▸ .pure []
  | cons x xs ih =>
    rw [List.mapM_cons]
    exact (hf x).bind fun y => ih.bind fun ys => .pure (y :: ys)

/-- A property that is missing, or of another type, is a failure of declaring. -/
theorem property (x : Except PropertyError α) : FailsOwn (Plan.property x) := by
  cases x with
  | ok a => exact .pure a
  | error e => exact .throw trivial

/-- The only broadcast that is refused is a second one of the same key. -/
theorem declareBroadcast (key : String) : FailsOwn (Plan.declareBroadcast key) := by
  have hget : FailsOwn (get : Declare Declared) := fun _ _ h => by cases h
  have hset : ∀ d : Declared, FailsOwn (set d : Declare PUnit) := fun _ _ _ h => by cases h
  refine hget.bind fun d => ?_
  dsimp only
  unfold Scope.register
  split
  · rename_i scope _
    exact (hset _).bind fun _ => .pure _
  · rename_i e he
    -- Registering refuses only a key that is there; an unknown key is refused by looking it up.
    split at he
    · cases he
      exact .throw trivial
    · cases he

/-- A condition is refused if its kind is unknown, if it is none, or if it is a constant that is no
boolean. -/
theorem checkCondition (shape? : String → Option LeafShape) (s : SpecNode) :
    FailsOwn (Plan.checkCondition shape? s) := by
  unfold Plan.checkCondition
  split
  · refine .bind (.property _) fun v => ?_
    cases v with
    | bool b => exact .pure ()
    | _ => exact .throw trivial
  · cases shape? s.kind with
    | none =>
      dsimp only
      split <;> exact .throw trivial
    | some shape =>
      cases shape with
      | condition => exact .pure ()
      | process => exact .throw trivial

end FailsOwn

/-- Declaring fails in ways of its own. -/
theorem failsOwn_declare (shape? : String → Option LeafShape) (s : SpecNode) :
    FailsOwn (declare shape? s) := by
  -- By recursion on the size: the parts fail in their own ways, and what joins them throws defects only.
  have ih : ∀ t : s.Smaller, FailsOwn (declare shape? t.1) := fun t => failsOwn_declare shape? t.1
  have hconditions : FailsOwn (property (s.childNodes "conditions") >>= fun conditions =>
      conditions.mapM fun condition => do
        checkCondition shape? condition.1
        declare shape? condition.1) :=
    .bind (.property _) fun _ => .mapM fun t => (FailsOwn.checkCondition shape? t.1).bind fun _ => ih t
  rw [declare]
  cases Structure.ofName? s.kind with
  | none =>
    dsimp only
    split
    · refine .bind (.throw trivial) fun _ => .bind (.property _) fun state? => ?_
      cases state? with
      | none => exact .pure _
      | some state => exact (ih state).bind fun _ => .pure _
    · refine .bind (.property _) fun state? => ?_
      cases state? with
      | none => exact .pure _
      | some state => exact (ih state).bind fun _ => .pure _
  | some k =>
    cases k with
    | value => exact .bind (.property _) fun v => .pure _
    | broadcast => exact .throw trivial
    | listener => exact .throw trivial
    | component =>
      refine .bind (.property _) fun consumers => .bind (.mapM fun c => ?_) fun _ =>
        .bind (.property _) fun producers => .bind (.mapM fun p => ?_) fun _ => .pure _
      · obtain ⟨c, hc⟩ := c
        dsimp only
        split
        · exact .bind (.property _) fun key => .bind (.declareBroadcast key) fun _ => .pure _
        · exact (ih ⟨c, hc⟩).bind fun _ => .pure _
      · obtain ⟨p, hp⟩ := p
        dsimp only
        split
        · exact .bind (.property _) fun key => .pure _
        · exact (ih ⟨p, hp⟩).bind fun _ => .pure _
    | gate =>
      dsimp only
      rw [← bind_assoc]
      exact hconditions.bind fun _ => .bind (.property _) fun positive => (ih positive).bind fun _ => .pure _
    | switch =>
      dsimp only
      rw [← bind_assoc]
      exact hconditions.bind fun _ => .bind (.property _) fun positive => (ih positive).bind fun _ =>
        .bind (.property _) fun negative => (ih negative).bind fun _ => .pure _
termination_by s.size
decreasing_by exact t.2

end Plan

/-! ## Leaves that are not looked at -/

namespace Registry

variable {π π' κ κ' : Type}

/-- Why the factory of a specification's kind refuses the specification, if it does. -/
def refusal? (r : Registry π κ) (spec : SpecNode) : Option LeafError :=
  match (r.find? spec.kind).map (Factory.make spec) with
  | some (.error cause) => some cause
  | _ => none

/-- The registries have the same kinds, of the same shapes, and their factories accept and refuse the same
specifications, for the same reasons. -/
structure SameOutcomes (r : Registry π κ) (r' : Registry π' κ') : Prop where
  shapes : r'.shape? = r.shape?
  refusals : ∀ spec, r'.refusal? spec = r.refusal? spec

/-- The registry with leaves of which nothing but the shape is known. -/
def erased (r : Registry π κ) : Registry Unit Unit where
  factories := r.factories.map fun entry => (entry.1, entry.2.map (fun _ => ()) fun _ => ())
  proper entry hentry := by
    obtain ⟨old, hold, rfl⟩ := List.mem_map.1 hentry
    exact r.proper old hold

end Registry

/-- The view of an engine in which leaves are not looked at. -/
def View.unseen (π κ : Type) : View π Unit κ Unit := ⟨fun _ => (), fun _ => (), false⟩

namespace Registry

variable {π π' κ κ' : Type} {r : Registry π κ} {r' : Registry π' κ'}

/-- Which leaf is made is told by the shape, and whether one is made by the refusal. -/
theorem makeLeaf_unseen (r : Registry π κ) (spec : SpecNode) :
    (Plan.makeLeaf r spec).map (View.unseen π κ).kind =
      match r.shape? spec.kind, r.refusal? spec with
      | none, _ => .error (.unknownKind spec.kind)
      | some _, some cause => .error (.leaf spec.kind cause)
      | some .process, none => .ok (.process spec.kind ())
      | some .condition, none => .ok (.condition spec.kind ()) := by
  unfold Plan.makeLeaf shape? refusal?
  cases r.find? spec.kind with
  | none => rfl
  | some factory =>
    cases factory with
    | process make =>
      simp only [Option.map_some, Factory.make, Factory.shape]
      cases make spec <;> rfl
    | condition make =>
      simp only [Option.map_some, Factory.make, Factory.shape]
      cases make spec <;> rfl

/-- An erased registry knows the same kinds of leaves. -/
theorem find?_erased (r : Registry π κ) (kind : String) :
    r.erased.find? kind = (r.find? kind).map (Factory.map (fun _ => ()) fun _ => ()) :=
  Keyed.lookup_map _ kind r.factories

/-- An erased registry refuses the same leaves, and makes the others without what they are. -/
theorem makeLeaf_erased (r : Registry π κ) (spec : SpecNode) :
    Plan.makeLeaf r.erased spec = (Plan.makeLeaf r spec).map (View.unseen π κ).kind := by
  unfold Plan.makeLeaf
  rw [find?_erased]
  cases r.find? spec.kind with
  | none => rfl
  | some factory =>
    cases factory with
    | process make =>
      simp only [Option.map_some, Factory.map, Factory.make]
      cases make spec <;> rfl
    | condition make =>
      simp only [Option.map_some, Factory.map, Factory.make]
      cases make spec <;> rfl

/-- Registries with the same outcomes look alike. -/
theorem SameOutcomes.seesLeaves (h : SameOutcomes r r') : (View.unseen π' κ').SeesLeaves r' r.erased := by
  intro spec
  rw [makeLeaf_erased, makeLeaf_unseen, makeLeaf_unseen, h.shapes, h.refusals]

end Registry

/-! ## The phases -/

namespace Graph

variable {π π' κ κ' : Type} {registry : Registry π κ} {registry' : Registry π' κ'} {spec : SpecNode}
  {e : BuildError}

/-- Declaring the specification fails. -/
def FailsDeclaring (registry : Registry π κ) (spec : SpecNode) (e : BuildError) : Prop :=
  (Plan.declare registry.shape? spec).run ⟨.empty, .empty⟩ = .error e

/-- Declaring the specification succeeds, and wiring what was declared fails. -/
def FailsWiring (registry : Registry π κ) (spec : SpecNode) (e : BuildError) : Prop :=
  ∃ plan declared, (Plan.declare registry.shape? spec).run ⟨.empty, .empty⟩ = .ok (plan, declared) ∧
    (plan.wire registry declared.scope [.sink]).run ⟨.empty, declared.channels, []⟩ = .error e

/-- Assembling is declaring and then wiring, and fails as the first of the two that fails. -/
theorem assemble_eq_error_iff :
    assemble registry spec = .error e ↔
      FailsDeclaring registry spec e ∨ FailsWiring registry spec e := by
  unfold assemble FailsDeclaring FailsWiring
  cases hdeclare : (Plan.declare registry.shape? spec).run ⟨.empty, .empty⟩ with
  | error e' => simp [bind, Except.bind]
  | ok r =>
    obtain ⟨plan, declared⟩ := r
    cases hwire : (plan.wire registry declared.scope [.sink]).run ⟨.empty, declared.channels, []⟩ with
    | error e' => simp [bind, Except.bind, hwire]
    | ok r => simp [bind, Except.bind, hwire, Pure.pure, Except.pure]

/-- Wiring fails alike with registries with the same outcomes. -/
theorem FailsWiring.same (h : FailsWiring registry spec e) (hsame : registry.SameOutcomes registry') :
    FailsWiring registry' spec e := by
  obtain ⟨plan, declared, hdeclare, hwire⟩ := h
  -- Both registries are seen as the erased one, and wiring is the same up to how leaves are seen.
  have hseen : ∀ {π κ : Type} {r : Registry π κ}, (View.unseen π κ).SeesLeaves r registry.erased →
      (plan.wire registry.erased declared.scope [.sink]).run ⟨.empty, declared.channels, []⟩ =
        ((plan.wire r declared.scope [.sink]).run ⟨.empty, declared.channels, []⟩).map fun w =>
          (w.1, (View.unseen π κ).wired w.2) := fun {π κ r} hleaves => by
    have hstart : (View.unseen π κ).wired ⟨.empty, declared.channels, []⟩ =
        ⟨.empty, declared.channels, []⟩ := by simp [View.wired, Arena.map, Arena.empty]
    exact hstart ▸ View.seesWire_wire hleaves plan [.sink] ⟨.empty, declared.channels, []⟩
  have hleft := hseen registry.makeLeaf_erased
  rw [hwire] at hleft
  have hright := hseen hsame.seesLeaves
  rw [hleft] at hright
  refine ⟨plan, declared, hsame.shapes ▸ hdeclare, ?_⟩
  cases hwire' : (plan.wire registry' declared.scope [.sink]).run ⟨.empty, declared.channels, []⟩ with
  | error e' =>
    rw [hwire'] at hright
    cases hright
    rfl
  | ok w =>
    rw [hwire'] at hright
    cases hright

/-- Whether the specification has a defect that declaring finds: a visited node that is not declarable,
or two broadcasts of one key. -/
def Defective (registry : Registry π κ) (spec : SpecNode) : Prop :=
  (∃ t ∈ spec.visited, ¬t.Declarable registry.shape?) ∨ ¬spec.declaredKeys.Nodup

/-- Declaring fails exactly with the specifications that have a defect, and in a way of its own. -/
theorem exists_failsDeclaring_iff :
    (∃ e, FailsDeclaring registry spec e) ↔ Defective registry spec := by
  have hdeclares := Plan.declares (shape?_eq_none_of_isStructural registry) spec
  constructor
  · rintro ⟨e, he⟩
    by_contra hdefect
    simp only [Defective, not_or, not_exists, not_and, not_not] at hdefect
    obtain ⟨plan, declared, hrun⟩ := hdeclares.succeeds hdefect.1 hdefect.2 ⟨.empty, .empty⟩ fun _ _ => rfl
    cases he.symm.trans hrun
  · intro hdefect
    cases hrun : (Plan.declare registry.shape? spec).run ⟨.empty, .empty⟩ with
    | error e => exact ⟨e, hrun⟩
    | ok r =>
      obtain ⟨hsound, hadds, -⟩ := hdeclares.sound hrun
      rcases hdefect with ⟨t, ht, hnot⟩ | hdup
      · exact absurd (hsound t ht) hnot
      · exact absurd hadds.nodup hdup

variable [Process π] [Condition κ]

/-- A build that cannot be assembled reports nothing. -/
theorem build_of_assemble_error (h : assemble registry spec = .error e) (config : Config) :
    build registry config spec = .error (.failed ⟨e, #[]⟩) := by
  rw [build, h]

/-- A build that fails in another way than by a run has not come to activating. -/
theorem assemble_of_build_error {config : Config} {failure : BuildFailure}
    (h : build registry config spec = .error (.failed failure)) (hrun : ∀ e, failure.error ≠ .run e) :
    assemble registry spec = .error failure.error ∧ failure.log = #[] := by
  unfold build at h
  cases hassemble : assemble registry spec with
  | error e =>
    rw [hassemble] at h
    cases h
    exact ⟨rfl, rfl⟩
  | ok r =>
    obtain ⟨root, scope, wired⟩ := r
    rw [hassemble] at h
    dsimp only at h
    split at h
    · cases h
    · cases h
      exact absurd rfl (hrun _)
    · cases h

variable [Process π'] [Condition κ']

/-- **The phases of a build do not leak into each other.** A failure of declaring is the same with every
registry of the same shapes, and it is what the build fails with if the specification has a defect at all
that declaring finds. A failure of wiring is the same with every registry whose factories accept and
refuse alike. And a build that fails otherwise than by a run has reported nothing and fails so whatever
its leaves do, as it has come to the end without their contracts. -/
theorem build_in_phases (hshapes : registry'.shape? = registry.shape?) (config config' : Config)
    (spec : SpecNode) :
    (Defective registry spec ↔ ∃ e, FailsDeclaring registry spec e) ∧
      (∀ e, FailsDeclaring registry spec e → e.IsOfDeclaring ∧ FailsDeclaring registry' spec e ∧
        build registry config spec = .error (.failed ⟨e, #[]⟩) ∧
        build registry' config' spec = .error (.failed ⟨e, #[]⟩)) ∧
      (registry.SameOutcomes registry' → ∀ e, FailsWiring registry spec e →
        FailsWiring registry' spec e ∧ build registry config spec = .error (.failed ⟨e, #[]⟩) ∧
        build registry' config' spec = .error (.failed ⟨e, #[]⟩)) ∧
      ∀ failure, build registry config spec = .error (.failed failure) →
        (∀ e, failure.error ≠ .run e) → failure.log = #[] ∧
          (FailsDeclaring registry spec failure.error ∨ FailsWiring registry spec failure.error) ∧
          ∀ (process : Process π) (condition : Condition κ),
            @build π κ process condition registry config spec = .error (.failed failure) := by
  refine ⟨exists_failsDeclaring_iff.symm, fun e h => ?_, fun hsame e h => ?_, fun failure h hrun => ?_⟩
  · have h' : FailsDeclaring registry' spec e := by rwa [FailsDeclaring, hshapes]
    exact ⟨Plan.failsOwn_declare _ _ _ _ h, h',
      build_of_assemble_error (assemble_eq_error_iff.2 (.inl h)) config,
      build_of_assemble_error (assemble_eq_error_iff.2 (.inl h')) config'⟩
  · have h' := h.same hsame
    exact ⟨h', build_of_assemble_error (assemble_eq_error_iff.2 (.inr h)) config,
      build_of_assemble_error (assemble_eq_error_iff.2 (.inr h')) config'⟩
  -- Leaves first run in activating, which a build that fails otherwise has not come to.
  · obtain ⟨hassemble, hlog⟩ := assemble_of_build_error h hrun
    refine ⟨hlog, assemble_eq_error_iff.1 hassemble, fun process condition => ?_⟩
    rw [build_of_assemble_error hassemble, ← hlog]

end Graph

/-- A registry of one kind of leaf. -/
def Registry.only (blueprint : Blueprint) : Registry Script Test :=
  empty.extend "leaf" blueprint.factory (by decide)

/-- The registry knows its one kind of leaf. -/
theorem Registry.find?_only (blueprint : Blueprint) (kind : String) :
    (only blueprint).find? kind = if kind = "leaf" then some blueprint.factory else none := by
  show List.lookup kind [("leaf", blueprint.factory)] = _
  rw [List.lookup_cons, List.lookup_nil]
  by_cases h : kind = "leaf"
  · simp [h]
  · rw [if_neg h, beq_false_of_ne h]

/-- A leaf beside a listener whose key nothing declares, and more producers. -/
def SpecNode.unheard (more : List SpecNode) : SpecNode :=
  ⟨"component",
    [("consumers", .nodes [⟨"leaf", []⟩]),
     ("producers", .nodes (⟨"listener", [("key", .literal (.text "nowhere"))]⟩ :: more))]⟩

namespace Graph

/-- An unknown kind comes before the factory that refuses and the key that nothing declares, and without
it the key comes before the leaf that would fail. -/
theorem build_in_phases_unheard :
    let obliging := Registry.only (.process ⟨[]⟩)
    let refusing := Registry.only (.reject .process "refused")
    let failing := Registry.only (.process ⟨[.fail "failed"]⟩)
    build obliging {} (.unheard [⟨"mystery", []⟩]) = .error (.failed ⟨.unknownKind "mystery", #[]⟩) ∧
      build refusing {} (.unheard [⟨"mystery", []⟩]) = .error (.failed ⟨.unknownKind "mystery", #[]⟩) ∧
      obliging.SameOutcomes failing ∧
      build failing {} (.unheard [.value .unit]) =
        .error (.failed ⟨.scope (.unknownKey "nowhere"), #[]⟩) := by
  intro obliging refusing failing
  have hshapes : ∀ {blueprint : Blueprint}, blueprint.factory.shape = .process →
      (Registry.only blueprint).shape? = obliging.shape? := fun {blueprint} hshape => by
    funext kind
    rw [Registry.shape?, Registry.shape?, Registry.find?_only, Registry.find?_only]
    split
    · exact congrArg some hshape
    · rfl
  have hrefusing : refusing.shape? = obliging.shape? := hshapes rfl
  have hfailing : obliging.SameOutcomes failing := by
    refine ⟨hshapes rfl, fun spec => ?_⟩
    rw [Registry.refusal?, Registry.refusal?, Registry.find?_only, Registry.find?_only]
    by_cases h : spec.kind = "leaf"
    · rw [if_pos h, if_pos h]
      rfl
    · rw [if_neg h, if_neg h]
  have hdeclaring : FailsDeclaring obliging (.unheard [⟨"mystery", []⟩]) (.unknownKind "mystery") := by
    unfold FailsDeclaring
    cbv
  have hwiring : FailsWiring obliging (.unheard [.value .unit]) (.scope (.unknownKey "nowhere")) := by
    refine ⟨.component [.node (.leaf ⟨"leaf", []⟩ none)] [.listener "nowhere", .node (.constant .unit)],
      ⟨.empty, .empty⟩, ?_, ?_⟩ <;> cbv
  obtain ⟨-, hdeclare, -, -⟩ := build_in_phases hrefusing {} {} (.unheard [⟨"mystery", []⟩])
  obtain ⟨-, -, hwire, -⟩ := build_in_phases hfailing.shapes {} {} (.unheard [.value .unit])
  obtain ⟨-, -, hobliging, hrefused⟩ := hdeclare _ hdeclaring
  obtain ⟨-, -, hfailed⟩ := hwire hfailing _ hwiring
  exact ⟨hobliging, hrefused, hfailing, hfailed⟩

end Graph

end Dataflow
