import Workflow.Contract.Check
import Workflow.Proofs.Contract.Availability

/-! Missing keys: which errors the check reports, and what a check without errors promises. -/
namespace Workflow

open Availability

/-- The keys that a step asks for in the order of their reports: a route begins with its own. -/
def Tree.demandOrder (step : Node) : List String :=
  match step.kind with
  | .route key _ _ => key :: (step.demand.erase key).toList
  | _ => step.demand.toList

/-- A route reports its own key in its own words. -/
def missingReport (step : Node) (key : String) : Diagnostic :=
  match step.kind with
  | .route own _ _ =>
    if key = own then missingRoutingKey step.name key else missingKey step.name key
  | _ => missingKey step.name key

/-- The key is there from the start, is the key of an item, or is written by a step that is complete
before the one at the place. -/
def Choice.Produces (choice : Choice) (root : Node) (seed : KeySet) (place : Place)
    (key : String) : Prop :=
  key ∈ seed ∨ root.ItemAbove place key ∨ choice.Before root place fun _ step => key ∈ step.writes

/-- On some choice the step at the place runs and nothing has produced the key. -/
def MayMiss (root : Node) (seed : KeySet) (place : Place) (key : String) : Prop :=
  ∃ choice : Choice, choice.Complete root ∧ choice.Runs root place ∧
    ¬ choice.Produces root seed place key

theorem mem_demandOrder {step : Node} {key : String} :
    key ∈ step.demandOrder ↔ key ∈ step.demand := by
  obtain ⟨name, contract, kind⟩ := step
  cases kind with
  | route own rules otherwise =>
    have demanded : own ∈ Node.demand ⟨name, contract, .route own rules otherwise⟩ := by
      simp [Node.demand, Tree.reads, Tree.kind, Kind.reads]
    by_cases h : key = own
    · simp [Tree.demandOrder, Tree.kind, h, demanded]
    · simp [Tree.demandOrder, Tree.kind, h, ← KeySet.mem_def]
  | _ => rfl

theorem demandErrors_eq (step : Node) (available : KeySet) :
    demandErrors step available =
      (step.demandOrder.filter (isMissing available)).map (missingReport step) := by
  obtain ⟨name, contract, kind⟩ := step
  cases kind with
  | route own rules otherwise =>
    let step : Node := ⟨name, contract, .route own rules otherwise⟩
    have others : (missing available (step.demand.erase own)).map (missingReport step) =
        (missing available (step.demand.erase own)).map (missingKey name) := by
      refine List.map_congr_left fun key mem => ?_
      have ne : key ≠ own := (KeySet.mem_erase.1 (List.mem_filter.1 mem).1).2
      exact if_neg ne
    have first : missingReport step own = missingRoutingKey name own := if_pos rfl
    change (if isMissing available own then [missingRoutingKey name own] else []) ++
      (missing available (step.demand.erase own)).map (missingKey name) =
        ((own :: (step.demand.erase own).toList).filter (isMissing available)).map
          (missingReport step)
    rw [List.filter_cons, ← others, ← first]
    split <;> rfl
  | _ => rfl

private theorem isMissing_availableAt {root step : Node} {seed : KeySet} {place : Place}
    {key : String} (h : root.at? place = some step) :
    isMissing (availableAt root seed place) key = true ↔
      ¬ isExternalKey key ∧ MayMiss root seed place key := by
  have unavailable : key ∉ availableAt root seed place ↔ MayMiss root seed place key := by
    rw [mem_availableAt h]
    unfold MayMiss Choice.Produces
    constructor
    · intro fails
      push Not at fails
      obtain ⟨seed, item, choice, complete, runs, misses⟩ := fails
      exact ⟨choice, complete, runs, by simp [seed, item, misses]⟩
    · intro found given
      obtain ⟨choice, complete, runs, misses⟩ := found
      rcases given with mem | item | all
      · exact misses (.inl mem)
      · exact misses (.inr (.inl item))
      · exact misses (.inr (.inr (all choice complete runs)))
  rw [← unavailable, isMissing, Bool.and_eq_true, and_comm]
  simp [← KeySet.contains_iff]

theorem errors_checkWith_eq (root : Node) (seed : KeySet) :
    Diagnostic.errors (checkWith root seed) =
      root.occurrences.flatMap fun (place, step) =>
        (step.demandOrder.filter (isMissing (availableAt root seed place))).map
          (missingReport step) := by
  have outputs : Diagnostic.errors (Liveness.deadOutputs root) = [] := by
    refine List.filter_eq_nil_iff.2 fun diagnostic h => ?_
    obtain ⟨writer, -, rfl⟩ := List.mem_map.1 h
    change ¬ decide (DiagnosticLevel.error ≤ .info) = true
    decide
  rw [checkWith, errors_append, outputs, List.append_nil, errors_pass]
  simp only [demandErrors_eq]

theorem available_of_no_errors {root step : Node} {seed : KeySet} {place : Place} {key : String}
    (clean : Diagnostic.errors (checkWith root seed) = []) (h : root.at? place = some step)
    (demanded : key ∈ step.demand) (own : ¬ isExternalKey key) :
    key ∈ availableAt root seed place := by
  rw [errors_checkWith_eq, List.flatMap_eq_nil_iff] at clean
  have none := clean _ (Tree.mem_occurrences.2 h)
  rw [List.map_eq_nil_iff, List.filter_eq_nil_iff] at none
  have found := none key (mem_demandOrder.2 demanded)
  simpa [isMissing, own] using found

open Classical in
/-- The errors are exactly the keys that a step asks for and may miss, step by step in order. -/
theorem errors_checkWith (root : Node) (seed : KeySet) :
    Diagnostic.errors (checkWith root seed) =
      root.occurrences.flatMap fun (place, step) =>
        (step.demandOrder.filter fun key =>
          ¬ isExternalKey key ∧ MayMiss root seed place key).map (missingReport step) := by
  rw [errors_checkWith_eq]
  refine List.flatMap_congr fun ⟨place, step⟩ mem => ?_
  have at_ : root.at? place = some step := Tree.mem_occurrences.1 mem
  refine congrArg (List.map (missingReport step)) ?_
  refine List.filter_congr fun key _ => ?_
  rw [Bool.eq_iff_iff, isMissing_availableAt at_, decide_eq_true_iff]

/-- A group of alternatives runs one child, or none if it is a route without a default. -/
def Choice.SelectsAtMostOne (choice : Choice) (group : Node) : Prop :=
  group.kind.isExclusive → group.children ≠ [] →
    (∃ i < group.children.length, choice [] = some i) ∨
      choice [] = none ∧ ∃ key rules, group.kind = .route key rules none

/-- No rule of the route matches, and every arm would have left the key. -/
def Choice.PassesOver (choice : Choice) (route : Node) (key : String) : Prop :=
  ∃ own rules, route.kind = .route own rules none ∧ rules ≠ [] ∧ choice [] = none ∧
    ∀ rule ∈ rules, rule.target.Ensures key

section

variable {root : Node} {choice : Choice} {key : String}

/-- What a step ensures is left on every run, unless a route in it is passed over. -/
theorem completes_of_ensures (ensures : root.Ensures key)
    (selects : choice.Obeys root Choice.SelectsAtMostOne) :
    choice.Completes root fun choice step => key ∈ step.writes ∨ choice.PassesOver step key := by
  induction root using Tree.induction generalizing choice with
  | step root ih =>
    obtain ⟨here, inner⟩ := Choice.obeys_iff.1 selects
    rw [Choice.completes_iff]
    by_cases exclusive : root.kind.isExclusive
    · rcases (Tree.ensures_of_exclusive exclusive).1 ensures with own | ⟨nonempty, each⟩
      · exact .inl (.inl own)
      rcases here exclusive nonempty with ⟨i, lt, first⟩ | ⟨first, own, rules, kind⟩
      · have hi : root.children[i]? = some root.children[i] := List.getElem?_eq_getElem lt
        have mem := List.getElem_mem lt
        exact .inr ⟨Kind.itemKey?_of_isExclusive exclusive, i, _, hi, fun _ => first,
          ih _ mem (each _ mem) (inner i _ hi)⟩
      · have arms : root.children = rules.map (·.target) := by
          simp [Tree.children, kind, Kind.children]
        refine .inl (.inr ⟨own, rules, kind, ?_, first, fun rule mem => ?_⟩)
        · simpa [arms] using nonempty
        · exact each _ (arms ▸ List.mem_map_of_mem mem)
    · cases item : root.kind.itemKey? with
      | some itemKey => exact .inl (.inl ((Tree.ensures_of_perItem item).1 ensures))
      | none =>
        rcases (Tree.ensures_of_all exclusive item).1 ensures with own | ⟨child, mem, leaves⟩
        · exact .inl (.inl own)
        obtain ⟨i, hi⟩ := List.mem_iff_getElem?.1 mem
        exact .inr ⟨rfl, i, child, hi, fun h => absurd h exclusive,
          ih child mem leaves (inner i child hi)⟩

/-- What is available at a place is produced on every run, unless a route before is passed over. -/
private theorem before_of_available {step : Node} {seed : KeySet} {place : Place}
    (h : root.at? place = some step) (available : key ∈ availableAt root seed place)
    (selects : choice.Obeys root Choice.SelectsAtMostOne) (runs : choice.Runs root place) :
    key ∈ seed ∨ root.ItemAbove place key ∨
      choice.Before root place fun choice step =>
        key ∈ step.writes ∨ choice.PassesOver step key := by
  induction place generalizing root choice seed with
  | nil => exact .inl available
  | cons i place ih =>
    obtain ⟨child, hc, h⟩ := Tree.at?_cons_eq_some.1 h
    obtain ⟨-, inner⟩ := Choice.obeys_iff.1 selects
    obtain ⟨here, runs⟩ := (Choice.runs_cons hc).1 runs
    rw [availableAt_cons hc] at available
    rw [Tree.itemAbove_cons hc, Choice.before_cons hc here]
    rcases ih h available (inner i child hc) runs with mem | item | before
    · rcases mem_entering.1 mem with mem | item | ⟨steps, kind, j, lt, sibling, hs, ensures⟩
      · exact .inl mem
      · exact .inr (.inl (.inl item))
      · have hs' : root.children[j]? = some sibling := by rwa [Tree.children_of_sequence kind]
        have completes := completes_of_ensures ensures (inner j sibling hs')
        exact .inr (.inr (.inl ⟨steps, kind, j, lt, sibling, hs, completes⟩))
    · exact .inr (.inl (.inr item))
    · exact .inr (.inr (.inr before))

/-- After a check without errors, a step that runs finds every key that it asks for and that belongs
to the workflow, unless a route before it is passed over. -/
theorem produces_of_no_errors {seed : KeySet} {place : Place} {step : Node}
    (clean : Diagnostic.errors (checkWith root seed) = [])
    (selects : choice.Obeys root Choice.SelectsAtMostOne) (h : root.at? place = some step)
    (runs : choice.Runs root place) (demanded : key ∈ step.demand) (own : ¬ isExternalKey key) :
    choice.Produces root seed place key ∨
      choice.Before root place fun choice route => choice.PassesOver route key := by
  rcases before_of_available h (available_of_no_errors clean h demanded own) selects runs with
    mem | item | ⟨earlier, other, before, at_, writes | passed⟩
  · exact .inl (.inl mem)
  · exact .inl (.inr (.inl item))
  · exact .inl (.inr (.inr ⟨earlier, other, before, at_, writes⟩))
  · exact .inr ⟨earlier, other, before, at_, passed⟩

end

section Unmatched

def answerArm : Node :=
  .mk "billing" .empty (.leaf { AgentSpec.empty with outputKey := some "answer" })

def intentRoute : Node :=
  .mk "route_intent" .empty
    (.route "intent" [⟨.equals "intent" (.string "billing"), answerArm⟩] none)

def answerReader : Node :=
  .mk "reply" { Contract.empty with reads := .singleton "answer" } (.leaf AgentSpec.empty)

/-- The only arm of the route writes the key that is read after it. -/
def readAfterRoute : Node :=
  .mk "desk" .empty (.sequence [intentRoute, answerReader])

/-- No arm runs anywhere. -/
def noArm : Choice := fun _ => none

private theorem noArm_selects : noArm.Obeys readAfterRoute Choice.SelectsAtMostOne := by
  intro place group h
  have steps : readAfterRoute.occurrences =
      [([], readAfterRoute), ([0], intentRoute), ([0, 0], answerArm), ([1], answerReader)] := rfl
  have mem := Tree.mem_occurrences.2 h
  rw [steps] at mem
  rcases (by simpa using mem : _ ∨ _ ∨ _ ∨ _) with ⟨-, rfl⟩ | ⟨-, rfl⟩ | ⟨-, rfl⟩ | ⟨-, rfl⟩
  · exact fun exclusive => absurd exclusive Bool.false_ne_true
  · exact fun _ _ => .inr ⟨rfl, "intent", _, rfl⟩
  · exact fun exclusive => absurd exclusive Bool.false_ne_true
  · exact fun exclusive => absurd exclusive Bool.false_ne_true

private theorem noArm_runs : noArm.Runs readAfterRoute [1] :=
  (Choice.runs_cons rfl).2 ⟨fun exclusive => absurd exclusive Bool.false_ne_true, Choice.runs_nil⟩

private theorem noArm_misses :
    ¬ noArm.Produces readAfterRoute (.singleton "intent") [1] "answer" := by
  intro h
  rcases h with seeded | item | before
  · exact absurd seeded (by decide)
  · rcases (Tree.itemAbove_cons rfl).1 item with item | item
    · exact absurd item (by decide)
    · exact Tree.not_itemAbove_nil item
  · have here : readAfterRoute.kind.isExclusive → noArm [] = some 1 :=
      fun exclusive => absurd exclusive Bool.false_ne_true
    rcases (Choice.before_cons rfl here).1 before with
      ⟨steps, kind, j, lt, step, hs, completes⟩ | before
    · obtain rfl : j = 0 := by omega
      obtain rfl : [intentRoute, answerReader] = steps := by
        simpa [readAfterRoute, Tree.kind] using kind
      obtain rfl : intentRoute = step := by simpa using hs
      rcases Choice.completes_iff.1 completes with writes | ⟨-, i, child, hc, here, -⟩
      · exact absurd writes (by decide)
      · exact absurd (here rfl) (by simp [noArm, Choice.within])
    · exact Choice.not_before_nil before

/-- A check without errors promises nothing about what only the arms of a route produce, if no rule
of the route may match. -/
theorem not_produces_of_no_errors :
    ¬ ∀ (root : Node) (seed : KeySet) (choice : Choice) (place : Place) (step : Node)
      (key : String), Diagnostic.errors (checkWith root seed) = [] →
      choice.Obeys root Choice.SelectsAtMostOne → root.at? place = some step →
      choice.Runs root place → key ∈ step.demand → ¬ isExternalKey key →
      choice.Produces root seed place key := fun all =>
  noArm_misses (all readAfterRoute (.singleton "intent") noArm [1] answerReader "answer"
    (by decide) noArm_selects rfl noArm_runs (by decide) (by decide))

theorem produces_of_no_errors_noArm :
    Diagnostic.errors (checkWith readAfterRoute (.singleton "intent")) = [] ∧
      noArm.Obeys readAfterRoute Choice.SelectsAtMostOne ∧
      readAfterRoute.at? [1] = some answerReader ∧ noArm.Runs readAfterRoute [1] ∧
      "answer" ∈ answerReader.demand ∧ ¬ isExternalKey "answer" ∧
      (noArm.Produces readAfterRoute (.singleton "intent") [1] "answer" ∨
        noArm.Before readAfterRoute [1] fun choice route => choice.PassesOver route "answer") :=
  ⟨by decide, noArm_selects, rfl, noArm_runs, by decide, by decide,
    produces_of_no_errors (by decide) noArm_selects rfl noArm_runs (by decide) (by decide)⟩

end Unmatched

end Workflow
