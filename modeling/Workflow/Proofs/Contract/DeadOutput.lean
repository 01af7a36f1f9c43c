import Workflow.Contract.Check
import Workflow.Proofs.Contract.Availability
import Workflow.Proofs.Contract.Tracking

/-! Dead outputs: the check reports exactly the writers that no forward path uses. -/
namespace Workflow

def Diagnostic.isDeadOutput (diagnostic : Diagnostic) : Bool :=
  diagnostic.level == .info &&
    "(likely dead output)".toList.isSuffixOf diagnostic.message.toList

namespace Liveness

/-- The report of a step that nobody uses, with its keys in ascending order. -/
def deadReport (step : Node) : Diagnostic :=
  ⟨.info, step.name, "writes " ++
    ", ".intercalate (step.writes.toList.map fun key => "'" ++ key ++ "'") ++
    " but no later step consumes it (likely dead output)"⟩

theorem isDeadOutput_deadOutput (writer : Writer) : (deadOutput writer).isDeadOutput = true := by
  have split : " but no later step consumes it (likely dead output)".toList =
      " but no later step consumes it ".toList ++ "(likely dead output)".toList := by decide
  have ends : "(likely dead output)".toList <:+ (deadOutput writer).message.toList := by
    simp only [deadOutput, String.toList_append, split, ← List.append_assoc]
    exact List.suffix_append _ _
  rw [Diagnostic.isDeadOutput, List.isSuffixOf_iff_suffix.2 ends]
  rfl

/-- A note about a key that is written again ends in other words. -/
theorem not_isDeadOutput_overwrittenKey (node key : String) :
    (Availability.overwrittenKey node key).isDeadOutput = false := by
  have other : ¬ "(likely dead output)".toList <:+
      (Availability.overwrittenKey node key).message.toList := by
    intro h
    obtain ⟨start, eq⟩ := h
    have last := congrArg List.getLast? eq
    have parenthesis : "(likely dead output)".toList.getLast? = some ')' := by decide
    have letter : "' already produced upstream".toList.getLast? = some 'm' := by decide
    simp only [Availability.overwrittenKey, String.toList_append, List.getLast?_append, parenthesis,
      letter] at last
    simp at last
  rw [Diagnostic.isDeadOutput, Bool.and_eq_false_iff]
  exact .inr (Bool.eq_false_iff.2 fun ends => other (List.isSuffixOf_iff_suffix.1 ends))

theorem filter_isDeadOutput_pass (root : Node) (seed : KeySet) :
    (Availability.pass root seed).diagnostics.filter Diagnostic.isDeadOutput = [] := by
  refine List.filter_eq_nil_iff.2 fun diagnostic mem dead => ?_
  have harmless : diagnostic.level ≠ .error := by
    intro error
    simp [Diagnostic.isDeadOutput, error] at dead
  obtain ⟨node, key, rfl⟩ := Availability.overwritten_of_mem_pass mem harmless
  rw [not_isDeadOutput_overwrittenKey] at dead
  exact absurd dead Bool.false_ne_true

theorem represents_empty (root : Node) :
    Represents root .empty [] ⟨fun _ _ => False, fun _ => False⟩ where
  writers := rfl
  live := by simp [Ledger.empty, KeyMap.getD]
  distinct := List.nodup_nil
  known := by
    intro place h
    rcases h with used | ⟨key, live⟩
    · exact used.elim
    · exact live.elim

open Classical in
/-- All writers after the whole pass, each with what becomes of it on forward paths. -/
theorem writers_pass (root : Node) :
    (pass root false .empty).writers =
      (writersAt [] root).map
        (writerOf root fun place => ∃ path on, Forward [] root path on ∧ Used place path) := by
  have last : false = true ↔ root.Followed [] := by simpa using Tree.not_followed_nil root
  have whole := tracks (Tree.at?_nil root) false .empty [] _ last (by simp) (represents_empty root)
  rw [whole.writers]
  simp [View.after]

open Classical in
/-- Every writer that something comes after is reported, once, unless some forward path uses what it
has written. Nothing else is reported as a dead output. -/
theorem deadOutputs_checkWith (root : Node) (seed : KeySet) :
    root.completions.Perm root.occurrences ∧
      (checkWith root seed).filter Diagnostic.isDeadOutput =
        (root.completions.filter fun (place, step) =>
          isWriter step.kind ∧ ¬ step.writes.isEmpty ∧ root.Followed place ∧
            ¬ ∃ path on, Forward [] root path on ∧ Used place path).map
          fun (_, step) => deadReport step := by
  refine ⟨root.completions_perm_occurrences, ?_⟩
  have outputs : (deadOutputs root).filter Diagnostic.isDeadOutput = deadOutputs root := by
    refine List.filter_eq_self.2 fun diagnostic mem => ?_
    obtain ⟨writer, -, rfl⟩ := List.mem_map.1 mem
    exact isDeadOutput_deadOutput writer
  have all : writersAt [] root =
      root.completions.filter fun entry => isWriter entry.2.kind && !entry.2.writes.isEmpty :=
    List.map_id _
  rw [checkWith, List.filter_append, filter_isDeadOutput_pass, outputs, List.nil_append,
    deadOutputs, writers_pass, all, List.filter_map, List.map_map, List.filter_filter]
  refine congrArg (List.map fun entry : Place × Node => deadReport entry.2) ?_
  refine List.filter_congr fun (place, step) _ => ?_
  rw [Bool.eq_iff_iff]
  simp only [writerOf, Function.comp_apply, Bool.not_not, Bool.and_eq_true, Bool.not_eq_true',
    decide_eq_true_iff, decide_eq_false_iff_not, Bool.not_eq_true]
  tauto

end Liveness

end Workflow
