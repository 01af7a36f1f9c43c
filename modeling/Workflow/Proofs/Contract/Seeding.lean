import Workflow.Proofs.Contract.DeadOutput
import Workflow.Proofs.Contract.MissingKeys

/-! Keys that are there from the start change what the check says about themselves, and nothing
else. -/
namespace Workflow

open Availability

/-- The finding says of one of the keys that it is missing, that it is missing to route on, or that
it is written again. -/
def Diagnostic.concerns (keys : KeySet) (diagnostic : Diagnostic) : Bool :=
  keys.toList.any fun key =>
    [missingKey, missingRoutingKey, overwrittenKey].any fun report =>
      diagnostic == report diagnostic.node key

/-- The sets have the same members outside of the given keys. -/
def KeySet.AgreeOutside (keys left right : KeySet) : Prop :=
  ∀ key, key ∉ keys → (key ∈ left ↔ key ∈ right)

section

variable {keys : KeySet} {node key : String}

private theorem eq_of_enclosed {start key other rest : String}
    (h : start ++ key ++ rest = start ++ other ++ rest) : key = other := by
  have texts := congrArg String.toList h
  simp only [String.toList_append, List.append_assoc] at texts
  exact String.toList_inj.1 (List.append_cancel_right (List.append_cancel_left texts))

/-- The two reports of a missing key begin with different letters. -/
theorem missingKey_ne_missingRoutingKey (other : String) :
    missingKey node key ≠ missingRoutingKey node other := by
  intro h
  have first := congrArg (fun report => report.message.toList.head?) h
  simp [missingKey, missingRoutingKey, String.toList_append] at first

theorem concerns_iff {diagnostic : Diagnostic} :
    diagnostic.concerns keys = true ↔
      ∃ key ∈ keys, diagnostic = missingKey diagnostic.node key ∨
        diagnostic = missingRoutingKey diagnostic.node key ∨
        diagnostic = overwrittenKey diagnostic.node key := by
  simp [Diagnostic.concerns, KeySet.mem_def]

theorem concerns_missingKey : (missingKey node key).concerns keys = true ↔ key ∈ keys := by
  rw [concerns_iff]
  constructor
  · intro found
    obtain ⟨other, mem, same | routing | again⟩ := found
    · rwa [eq_of_enclosed (congrArg Diagnostic.message same)]
    · exact absurd routing (missingKey_ne_missingRoutingKey other)
    · exact absurd (congrArg Diagnostic.level again) DiagnosticLevel.noConfusion
  · exact fun mem => ⟨key, mem, .inl rfl⟩

theorem concerns_missingRoutingKey :
    (missingRoutingKey node key).concerns keys = true ↔ key ∈ keys := by
  rw [concerns_iff]
  constructor
  · intro found
    obtain ⟨other, mem, plain | same | again⟩ := found
    · exact absurd plain.symm (missingKey_ne_missingRoutingKey key)
    · rwa [eq_of_enclosed (congrArg Diagnostic.message same)]
    · exact absurd (congrArg Diagnostic.level again) DiagnosticLevel.noConfusion
  · exact fun mem => ⟨key, mem, .inr (.inl rfl)⟩

theorem concerns_overwrittenKey : (overwrittenKey node key).concerns keys = true ↔ key ∈ keys := by
  rw [concerns_iff]
  constructor
  · intro found
    obtain ⟨other, mem, plain | routing | same⟩ := found
    · exact absurd (congrArg Diagnostic.level plain) DiagnosticLevel.noConfusion
    · exact absurd (congrArg Diagnostic.level routing) DiagnosticLevel.noConfusion
    · rwa [eq_of_enclosed (congrArg Diagnostic.message same)]
  · exact fun mem => ⟨key, mem, .inr (.inr rfl)⟩

theorem concerns_missingReport (step : Node) :
    (missingReport step key).concerns keys = true ↔ key ∈ keys := by
  unfold missingReport
  split
  · split
    · exact concerns_missingRoutingKey
    · exact concerns_missingKey
  · exact concerns_missingKey

/-- Once the reports on the given keys are taken away, two selections of keys that differ only in
those give the same reports. -/
private theorem filter_reports {report : String → Diagnostic} {first second : String → Bool}
    (about : ∀ key, (report key).concerns keys = true ↔ key ∈ keys)
    (same : ∀ key, key ∉ keys → first key = second key) (names : List String) :
    ((names.filter first).map report).filter (!·.concerns keys) =
      ((names.filter second).map report).filter (!·.concerns keys) := by
  simp only [List.filter_map, List.filter_filter]
  refine congrArg (List.map report) (List.filter_congr fun key _ => ?_)
  by_cases mem : key ∈ keys
  · simp [(about key).2 mem]
  · simp [same key mem]

variable {left right : KeySet}

theorem KeySet.agreeOutside_union (seed keys : KeySet) :
    keys.AgreeOutside (seed ∪ keys) seed := by
  intro key other
  simp [other]

theorem KeySet.AgreeOutside.contains_eq (agree : keys.AgreeOutside left right) (other : key ∉ keys) :
    left.contains key = right.contains key := by
  rw [Bool.eq_iff_iff, KeySet.contains_iff, KeySet.contains_iff]
  exact agree key other

theorem filter_demandErrors (agree : keys.AgreeOutside left right) (step : Node) :
    (demandErrors step left).filter (!·.concerns keys) =
      (demandErrors step right).filter (!·.concerns keys) := by
  rw [demandErrors_eq, demandErrors_eq]
  refine filter_reports (fun _ => concerns_missingReport step) (fun key other => ?_) _
  rw [isMissing, isMissing, agree.contains_eq other]

/-- Only steps that are no groups note what they write again, and nothing below them has added to
what is available. -/
theorem diagnostics_ownWrites (node : Node) (available : KeySet) :
    (ownWrites node (inside (node.kind.map pass) available).available).diagnostics =
      if Liveness.isWriter node.kind then
        (overwritten available node.writes).map (overwrittenKey node.name)
      else [] := by
  obtain ⟨name, contract, kind⟩ := node
  cases kind <;> rfl

theorem filter_ownWrites (agree : keys.AgreeOutside left right) (node : Node) :
    (ownWrites node (inside (node.kind.map pass) left).available).diagnostics.filter
        (!·.concerns keys) =
      (ownWrites node (inside (node.kind.map pass) right).available).diagnostics.filter
        (!·.concerns keys) := by
  rw [diagnostics_ownWrites, diagnostics_ownWrites]
  split
  · refine filter_reports (fun _ => concerns_overwrittenKey) (fun key other => ?_) _
    rw [agree.contains_eq other]
  · rfl

theorem KeySet.AgreeOutside.entering (agree : keys.AgreeOutside left right) (kind : Kind Node)
    (i : Nat) : keys.AgreeOutside (entering kind left i) (entering kind right i) := by
  intro key other
  rw [mem_entering, mem_entering, agree key other]

theorem filter_pass (agree : keys.AgreeOutside left right) (root : Node) :
    (pass root left).diagnostics.filter (!·.concerns keys) =
      (pass root right).diagnostics.filter (!·.concerns keys) := by
  induction root using Tree.induction generalizing left right with
  | step root ih =>
    have below : (inside (root.kind.map pass) left).diagnostics.filter (!·.concerns keys) =
        (inside (root.kind.map pass) right).diagnostics.filter (!·.concerns keys) := by
      rw [diagnostics_inside, diagnostics_inside, List.filter_flatMap, List.filter_flatMap]
      refine List.flatMap_congr fun (child, i) h => ?_
      have mem := List.fst_mem_of_mem_zipIdx h
      exact ih child mem (agree.entering root.kind i)
    simp only [diagnostics_pass, List.filter_append, filter_demandErrors agree, below,
      filter_ownWrites agree]

end

theorem Diagnostic.mem_errors {diagnostic : Diagnostic} {diagnostics : List Diagnostic} :
    diagnostic ∈ errors diagnostics ↔ diagnostic ∈ diagnostics ∧ diagnostic.isError = true := by
  obtain ⟨level, node, message⟩ := diagnostic
  rw [errors, atLeast, List.mem_filter]
  refine and_congr_right fun _ => ?_
  change decide (DiagnosticLevel.error ≤ level) = true ↔ (level == .error) = true
  cases level <;> decide

/-- A key that is there from the start is there at every step. -/
theorem not_concerns_of_error {root : Node} {seed keys : KeySet} {diagnostic : Diagnostic}
    (mem : diagnostic ∈ checkWith root (seed ∪ keys)) (error : diagnostic.isError = true) :
    ¬ diagnostic.concerns keys = true := by
  have among := Diagnostic.mem_errors.2 ⟨mem, error⟩
  rw [errors_checkWith_eq] at among
  obtain ⟨⟨place, step⟩, occurs, reported⟩ := List.mem_flatMap.1 among
  obtain ⟨key, demanded, rfl⟩ := List.mem_map.1 reported
  obtain ⟨-, missing⟩ := List.mem_filter.1 demanded
  rw [concerns_missingReport]
  intro seeded
  have available : key ∈ availableAt root (seed ∪ keys) place :=
    (mem_availableAt (Tree.mem_occurrences.1 occurs)).2 (.inl (KeySet.mem_union.2 (.inr seeded)))
  rw [isMissing, KeySet.contains_iff.2 available] at missing
  exact absurd missing Bool.false_ne_true

/-- More keys at the start take away the reports that these are missing and may add notes that they
are written again. All other findings stay as they are, in the same order. -/
theorem checkWith_union (root : Node) (seed keys : KeySet) :
    (checkWith root (seed ∪ keys)).filter (!·.concerns keys) =
        (checkWith root seed).filter (!·.concerns keys) ∧
      (∀ diagnostic ∈ checkWith root (seed ∪ keys), diagnostic.isError = true →
        ¬ diagnostic.concerns keys = true) ∧
      ∀ other, (checkWith root other).filter Diagnostic.isDeadOutput =
        (checkWith root seed).filter Diagnostic.isDeadOutput := by
  refine ⟨?_, fun _ mem error => not_concerns_of_error mem error, fun other => ?_⟩
  · rw [checkWith, checkWith, List.filter_append, List.filter_append,
      filter_pass (KeySet.agreeOutside_union seed keys)]
  · rw [checkWith, checkWith, List.filter_append, List.filter_append,
      Liveness.filter_isDeadOutput_pass, Liveness.filter_isDeadOutput_pass]

end Workflow
