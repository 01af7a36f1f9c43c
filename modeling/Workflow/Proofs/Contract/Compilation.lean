import Workflow.Compile

/-! Which workflows are compiled: all of them, unless the contracts are enforced and the check finds
errors. -/
namespace Workflow

theorem ContractMode.admits_eq_ok_iff {mode : ContractMode} {diagnostics : List Diagnostic} :
    mode.admits diagnostics = .ok () ↔
      (mode = .strict → Diagnostic.errors diagnostics = []) := by
  unfold admits
  cases mode <;> cases Diagnostic.errors diagnostics <;> simp

section

variable {α : Type} {backend : Backend α} {root : Node} {config : Config}
  {compilation : Compilation α}

/-- What comes out of a compilation depends on the contracts in its findings only. -/
theorem compileChecked_eq_ok_iff :
    compileChecked backend root config = .ok compilation ↔
      (config.contractMode = .strict → Diagnostic.errors (check root) = []) ∧
        compilation = {
          artifact := backend.compile root config
          diagnostics := config.contractMode.diagnose root
          visibility := inferVisibility root config.visibility } := by
  have admitted : config.contractMode.admits (config.contractMode.diagnose root) = .ok () ↔
      (config.contractMode = .strict → Diagnostic.errors (check root) = []) := by
    rw [ContractMode.admits_eq_ok_iff]
    refine forall_congr' fun strict => ?_
    rw [strict]
    rfl
  rw [← admitted]
  unfold compileChecked
  cases verdict : config.contractMode.admits (config.contractMode.diagnose root) with
  | error refusal => simp [verdict, bind, Except.bind]
  | ok _ => simp [verdict, bind, Except.bind, pure, Except.pure, eq_comm]

theorem exists_compilation_iff :
    (∃ compilation, compileChecked backend root config = .ok compilation) ↔
      (config.contractMode = .strict → Diagnostic.errors (check root) = []) := by
  simp only [compileChecked_eq_ok_iff, exists_and_left, exists_eq, and_true]

end

end Workflow
