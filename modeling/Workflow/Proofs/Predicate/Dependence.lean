import Workflow.Proofs.Contract.MissingKeys
import Workflow.Proofs.State.Dependence
import Workflow.Proofs.Tree.Equality

/-! The keys of a predicate. They are those of its atoms, its value depends on no other, and every step
that tests a predicate asks for them. -/
namespace Workflow

namespace Predicate

/-- The key of a predicate that looks at the state itself. -/
def atomKey? : Predicate → Option String
  | .truthy key | .present key | .equals key _ | .contains key _ => some key
  | .not _ | .all _ | .any _ => none

/-- The first predicate is the second one or stands somewhere inside of it. -/
inductive Occurs (part : Predicate) : Predicate → Prop where
  | here : Occurs part part
  | not {inner : Predicate} (inside : Occurs part inner) : Occurs part (.not inner)
  | all {of : List Predicate} {member : Predicate} (mem : member ∈ of) (inside : Occurs part member) :
    Occurs part (.all of)
  | any {of : List Predicate} {member : Predicate} (mem : member ∈ of) (inside : Occurs part member) :
    Occurs part (.any of)

section evaluation

variable {state other : State} {key : String} {of : List Predicate}

theorem mem_keysOfList : key ∈ keysOfList of ↔ ∃ member ∈ of, key ∈ member.keys := by
  induction of with
  | nil => simp [keysOfList]
  | cons first rest ih => simp [keysOfList, ih]

theorem evaluateAll_eq : evaluateAll state of = (of.map (·.evaluate state)).and := by
  induction of with
  | nil => rfl
  | cons first rest ih => rw [evaluateAll, ih, List.map_cons, List.and_cons]

theorem evaluateAny_eq : evaluateAny state of = (of.map (·.evaluate state)).or := by
  induction of with
  | nil => rfl
  | cons first rest ih => rw [evaluateAny, ih, List.map_cons, List.or_cons]

/-- What holds of all atoms, and of each connective as soon as it holds of its members, holds of all
predicates. -/
theorem induction {motive : Predicate → Prop}
    (atom : ∀ predicate key, predicate.atomKey? = some key → motive predicate)
    (not : ∀ inner, motive inner → motive (.not inner))
    (all : ∀ of, (∀ member ∈ of, motive member) → motive (.all of))
    (any : ∀ of, (∀ member ∈ of, motive member) → motive (.any of))
    (predicate : Predicate) : motive predicate := by
  cases predicate with
  | truthy key | present key | equals key _ | contains key _ => exact atom _ key rfl
  | not inner => exact not inner (induction atom not all any inner)
  | all of => exact all of fun member _ => induction atom not all any member
  | any of => exact any of fun member _ => induction atom not all any member

theorem keys_of_atomKey? {atom : Predicate} (h : atom.atomKey? = some key) :
    atom.keys = .singleton key := by
  cases atom <;> simp_all [atomKey?, keys]

/-- An atom looks at its key and at nothing else. -/
theorem evaluate_atom_congr {atom : Predicate} (h : atom.atomKey? = some key)
    (same : state.get? key = other.get? key) : atom.evaluate state = atom.evaluate other := by
  cases atom with
  | truthy own | equals own value | contains own needle =>
    obtain rfl : own = key := Option.some.inj h
    rw [evaluate, evaluate, same]
  | present own =>
    obtain rfl : own = key := Option.some.inj h
    exact congrArg Option.isSome same
  | not inner | all of | any of => exact absurd h (by simp [atomKey?])

theorem dependsOnlyOn_keys (predicate : Predicate) :
    State.DependsOnlyOn (predicate.evaluate ·) predicate.keys := by
  intro state other agree
  show predicate.evaluate state = predicate.evaluate other
  -- The members of a connective have their keys among its own, so that the states agree on them too.
  have members (of : List Predicate) (agree : State.AgreeOn (keysOfList of) state other)
      (ih : ∀ member ∈ of, State.AgreeOn member.keys state other →
        member.evaluate state = member.evaluate other) :
      of.map (·.evaluate state) = of.map (·.evaluate other) := by
    apply List.map_congr_left
    intro member mem
    exact ih member mem (agree.mono fun key inside => mem_keysOfList.2 ⟨member, mem, inside⟩)
  induction predicate using Predicate.induction with
  | atom predicate key h =>
    rw [keys_of_atomKey? h] at agree
    exact evaluate_atom_congr h (agree key (KeySet.mem_singleton.2 rfl))
  | not inner ih => rw [evaluate, evaluate, ih agree]
  | all of ih => rw [evaluate, evaluate, evaluateAll_eq, evaluateAll_eq, members of agree ih]
  | any of ih => rw [evaluate, evaluate, evaluateAny_eq, evaluateAny_eq, members of agree ih]

/-- The keys are those of the atoms that occur in the predicate. -/
theorem mem_keys_iff (predicate : Predicate) :
    key ∈ predicate.keys ↔ ∃ atom, Occurs atom predicate ∧ atom.atomKey? = some key := by
  constructor
  · intro mem
    induction predicate using Predicate.induction with
    | atom predicate own h =>
      rw [keys_of_atomKey? h, KeySet.mem_singleton] at mem
      exact ⟨predicate, .here, mem ▸ h⟩
    | not inner ih =>
      obtain ⟨atom, inside, h⟩ := ih mem
      exact ⟨atom, .not inside, h⟩
    | all of ih =>
      obtain ⟨member, among, mem⟩ := mem_keysOfList.1 mem
      obtain ⟨atom, inside, h⟩ := ih member among mem
      exact ⟨atom, .all among inside, h⟩
    | any of ih =>
      obtain ⟨member, among, mem⟩ := mem_keysOfList.1 mem
      obtain ⟨atom, inside, h⟩ := ih member among mem
      exact ⟨atom, .any among inside, h⟩
  · rintro ⟨atom, occurs, h⟩
    induction occurs with
    | here =>
      rw [keys_of_atomKey? h]
      exact KeySet.mem_singleton.2 rfl
    | not inside ih => exact ih
    | all mem inside ih => exact mem_keysOfList.2 ⟨_, mem, ih⟩
    | any mem inside ih => exact mem_keysOfList.2 ⟨_, mem, ih⟩

theorem occursIn_self (needle : List Char) : occursIn needle needle = true := by
  cases needle <;> simp [occursIn]

/-- An atom does depend on its key: it holds of some value there, and not without one. -/
theorem dependsOn_atom {atom : Predicate} (h : atom.atomKey? = some key) :
    State.DependsOn (atom.evaluate ·) key := by
  have holds : ∃ value, atom.evaluate (KeyMap.insert ∅ key value) = true := by
    cases atom with
    | truthy own =>
      obtain rfl : own = key := Option.some.inj h
      exact ⟨.bool true, by simp [evaluate, Json.truthy]⟩
    | present own =>
      obtain rfl : own = key := Option.some.inj h
      exact ⟨.null, by simp [evaluate]⟩
    | equals own value =>
      obtain rfl : own = key := Option.some.inj h
      exact ⟨value, by simp [evaluate]⟩
    | contains own needle =>
      obtain rfl : own = key := Option.some.inj h
      exact ⟨.string needle, by simp [evaluate, Json.string?, occursIn_self]⟩
    | not inner | all of | any of => exact absurd h (by simp [atomKey?])
  have fails : atom.evaluate ∅ = false := by
    cases atom with
    | truthy own | present own | equals own value | contains own needle =>
      simp [evaluate, KeyMap.contains]
    | not inner | all of | any of => exact absurd h (by simp [atomKey?])
  obtain ⟨value, holds⟩ := holds
  refine ⟨KeyMap.insert ∅ key value, ∅, ?_, ?_⟩
  · intro name ne
    rw [KeyMap.get?_insert, if_neg ne]
  · show atom.evaluate _ ≠ atom.evaluate ∅
    rw [holds, fails]
    decide

end evaluation

end Predicate

/-- The predicate that a gate, a transfer or a checkpoint tests. -/
def Kind.condition? {α : Type} : Kind α → Option Predicate
  | .gate predicate _ _ => some predicate
  | .transfer _ condition => condition
  | .tap (.checkpoint exit) => some exit
  | _ => none

/-- The predicates of the rules of a route. -/
def Kind.rulePredicates {α : Type} : Kind α → List Predicate
  | .route _ rules _ => rules.map (·.predicate)
  | _ => []

section

variable {step root : Node} {predicate : Predicate} {key : String} {seed : KeySet} {place : Place}

theorem Tree.mem_reads_of_condition? (condition : step.kind.condition? = some predicate)
    (mem : key ∈ predicate.keys) : key ∈ step.reads := by
  obtain ⟨name, contract, kind⟩ := step
  have own : key ∈ kind.reads := by
    revert condition
    cases kind with
    | gate tested message approvalKey =>
      rintro ⟨⟩
      exact mem
    | transfer target tested =>
      rintro ⟨⟩
      exact mem
    | tap action =>
      cases action with
      | checkpoint exit =>
        rintro ⟨⟩
        exact mem
      | _ => rintro ⟨⟩
    | _ => rintro ⟨⟩
  exact KeySet.mem_union.2 (.inr own)

theorem Node.mem_demand_of_mem_rulePredicates (among : predicate ∈ step.kind.rulePredicates)
    (mem : key ∈ predicate.keys) : key ∈ Node.demand step := by
  obtain ⟨name, contract, kind⟩ := step
  cases kind with
  | route own rules otherwise =>
    obtain ⟨rule, inside, rfl⟩ := List.mem_map.1 among
    exact KeySet.mem_insertAll.2 (.inl (List.mem_flatMap.2 ⟨rule, inside, mem⟩))
  | _ => exact absurd among List.not_mem_nil

/-- The check reports each key that a step asks for and does not find. -/
theorem missingReport_mem_checkWith (h : root.at? place = some step)
    (demanded : key ∈ Node.demand step)
    (missing : Availability.isMissing (Availability.availableAt root seed place) key = true) :
    missingReport step key ∈ checkWith root seed := by
  have reported : missingReport step key ∈ Diagnostic.errors (checkWith root seed) := by
    rw [errors_checkWith_eq, List.mem_flatMap]
    refine ⟨(place, step), Tree.mem_occurrences.2 h, ?_⟩
    apply List.mem_map_of_mem
    exact List.mem_filter.2 ⟨mem_demandOrder.2 demanded, missing⟩
  exact (List.mem_filter.1 reported).1

end

/-- The value of a predicate depends on none but its keys, which are exactly those of its atoms; an atom
does depend on its key. So a gate, a transfer or a checkpoint reads all that its predicate can depend on,
and the check asks for all keys of the rules of a route: it reports those that are not there. -/
theorem Predicate.keys_spec (predicate : Predicate) :
    State.DependsOnlyOn (predicate.evaluate ·) predicate.keys ∧
      (∀ key, key ∈ predicate.keys ↔ ∃ atom, Occurs atom predicate ∧ atom.atomKey? = some key) ∧
      (∀ key, predicate.atomKey? = some key → State.DependsOn (predicate.evaluate ·) key) ∧
      (∀ step : Node, step.kind.condition? = some predicate →
        (∀ key ∈ predicate.keys, key ∈ step.reads) ∧
          ∀ key, State.DependsOn (predicate.evaluate ·) key → key ∈ step.reads) ∧
      ∀ (root : Node) (place : Place) (step : Node), root.at? place = some step →
        predicate ∈ step.kind.rulePredicates → ∀ key ∈ predicate.keys, key ∈ step.demand ∧
          ∀ seed, Availability.isMissing (Availability.availableAt root seed place) key = true →
            missingReport step key ∈ checkWith root seed := by
  refine ⟨predicate.dependsOnlyOn_keys, fun key => predicate.mem_keys_iff,
    fun key => Predicate.dependsOn_atom, ?_, ?_⟩
  · intro step condition
    have within (key : String) (mem : key ∈ predicate.keys) : key ∈ step.reads :=
      Tree.mem_reads_of_condition? condition mem
    exact ⟨within, fun key depends => within key (depends.mem predicate.dependsOnlyOn_keys)⟩
  · intro root place step at_ among key mem
    have demanded := Node.mem_demand_of_mem_rulePredicates among mem
    exact ⟨demanded, fun seed missing => missingReport_mem_checkWith at_ demanded missing⟩

section approval

/-- Somebody has approved, and the text is not dry. -/
def releasable : Predicate :=
  .all [.truthy "approved", .not (.equals "tone" (.string "dry"))]

def approvedState : State :=
  KeyMap.ofList [("approved", .bool true), ("tone", .string "warm")]

/-- The same with a key that the predicate does not look at. -/
def notedState : State :=
  KeyMap.insert approvedState "notes" (.string "v1")

def releaseGate : Node :=
  .mk "release" .empty (.gate releasable "Release the text?" "release:approved")

/-- A choice by stage, whose only rule goes to the gate. -/
def releaseRoute : Node :=
  .mk "stage" .empty (.route "stage" [⟨releasable, releaseGate⟩] none)

theorem Predicate.keys_spec_releasable :
    State.AgreeOn releasable.keys approvedState notedState ∧
      releasable.evaluate approvedState = releasable.evaluate notedState ∧
      (∃ atom, Occurs atom releasable ∧ atom.atomKey? = some "tone") ∧
      State.DependsOn ((Predicate.truthy "approved").evaluate ·) "approved" ∧
      "approved" ∈ releaseGate.reads ∧ State.DependsOn (releasable.evaluate ·) "tone" ∧
      "tone" ∈ releaseGate.reads ∧ "tone" ∈ Node.demand releaseRoute ∧
      missingReport releaseRoute "tone" ∈ check releaseRoute := by
  obtain ⟨only, atoms, -, tested, routed⟩ := keys_spec releasable
  obtain ⟨-, -, dependent, -⟩ := keys_spec (.truthy "approved")
  have agree : State.AgreeOn releasable.keys approvedState notedState := by
    intro key mem
    have ne : key ≠ "notes" := fun eq => absurd (eq ▸ mem) (by decide)
    rw [notedState, KeyMap.get?_insert, if_neg ne]
  have depends : State.DependsOn (releasable.evaluate ·) "tone" := by
    refine ⟨approvedState, KeyMap.insert approvedState "tone" (.string "dry"), ?_, by decide⟩
    intro name ne
    rw [KeyMap.get?_insert, if_neg ne]
  obtain ⟨inside, dependsInside⟩ := tested releaseGate rfl
  have mem : "tone" ∈ releasable.keys := by decide
  have among : releasable ∈ releaseRoute.kind.rulePredicates := List.mem_singleton.2 rfl
  obtain ⟨demanded, reported⟩ := routed releaseRoute [] releaseRoute rfl among "tone" mem
  exact ⟨agree, only _ _ agree, (atoms "tone").1 mem, dependent "approved" rfl,
    inside "approved" (by decide), depends, dependsInside "tone" depends, demanded,
    reported ∅ (by decide)⟩

end approval

end Workflow
