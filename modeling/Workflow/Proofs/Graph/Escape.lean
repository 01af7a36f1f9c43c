import Mathlib.Data.List.Basic
import Workflow.Graph.Export

/-!
Escaping as replacing one character after another in a whole text. This is the same as writing each
character on its own, as long as none that is replaced later occurs in what is written for an earlier one:
that is why the backslash has to be the first.
-/
namespace Workflow.Graph

/-- The text with another one at each occurrence of a character. -/
def replace (c : Char) (written text : List Char) : List Char :=
  text.flatMap fun d => if d = c then written else [d]

def replaceEach (replacements : List (Char × List Char)) (text : List Char) : List Char :=
  replacements.foldl (fun text (c, written) => replace c written text) text

/-- No character is replaced in what is written for an earlier one. -/
def Apart (replacements : List (Char × List Char)) : Prop :=
  replacements.Pairwise fun earlier later => later.1 ∉ earlier.2

instance (replacements : List (Char × List Char)) : Decidable (Apart replacements) :=
  inferInstanceAs (Decidable (List.Pairwise _ _))

/-- What the first entry for the character writes. -/
def writtenFor (replacements : List (Char × List Char)) (c : Char) : List Char :=
  (replacements.lookup c).getD [c]

@[simp] theorem writtenFor_nil (c : Char) : writtenFor [] c = [c] := rfl

theorem writtenFor_cons (c : Char) (written : List Char) (rest : List (Char × List Char)) (d : Char) :
    writtenFor ((c, written) :: rest) d = if d = c then written else writtenFor rest d := by
  by_cases same : d = c
  · simp [writtenFor, same]
  · simp [writtenFor, same, List.lookup_cons, beq_false_of_ne same]

theorem writtenFor_unlisted {replacements : List (Char × List Char)} {c : Char}
    (unlisted : ∀ replacement ∈ replacements, c ≠ replacement.1) :
    writtenFor replacements c = [c] := by
  induction replacements with
  | nil => rfl
  | cons first rest ih =>
    obtain ⟨other, unlisted⟩ := List.forall_mem_cons.1 unlisted
    rw [writtenFor_cons, if_neg other, ih unlisted]

/-- One pass over the text instead of one for each entry. -/
theorem replaceEach_eq {replacements : List (Char × List Char)} (apart : Apart replacements)
    (text : List Char) : replaceEach replacements text = text.flatMap (writtenFor replacements) := by
  induction replacements generalizing text with
  | nil => exact (List.flatMap_singleton' text).symm
  | cons first rest ih =>
    obtain ⟨c, written⟩ := first
    obtain ⟨untouched, apart⟩ := List.pairwise_cons.1 apart
    have kept : written.flatMap (writtenFor rest) = written := by
      have itself : ∀ d ∈ written, writtenFor rest d = [d] := fun d mem =>
        writtenFor_unlisted fun later listed same => untouched later listed (same ▸ mem)
      rw [List.flatMap_congr itself, List.flatMap_singleton']
    have once : replaceEach ((c, written) :: rest) text = replaceEach rest (replace c written text) := rfl
    rw [once, ih apart, replace, List.flatMap_assoc]
    refine List.flatMap_congr fun d _ => ?_
    by_cases same : d = c
    · simp [writtenFor_cons, same, kept]
    · simp [writtenFor_cons, same]

def Dot.replacements : List (Char × List Char) :=
  [('\\', "\\\\".toList), ('"', "\\\"".toList), ('\n', "\\n".toList)]

theorem Dot.toList_escape_eq (text : String) :
    (Dot.escape text).toList = replaceEach Dot.replacements text.toList := by
  have apart : Apart Dot.replacements := by decide
  rw [replaceEach_eq apart, Dot.escape, String.toList_ofList]
  refine List.flatMap_congr fun c _ => ?_
  simp only [Dot.escapeChar, Dot.replacements, writtenFor_cons, writtenFor_nil]
  rfl

def Mermaid.replacements : List (Char × List Char) :=
  [('"', "&quot;".toList), ('<', "&lt;".toList), ('>', "&gt;".toList)]

theorem Mermaid.toList_escape_eq (text : String) :
    (Mermaid.escape text).toList = replaceEach Mermaid.replacements text.toList := by
  have apart : Apart Mermaid.replacements := by decide
  rw [replaceEach_eq apart, Mermaid.escape, String.toList_ofList]
  refine List.flatMap_congr fun c _ => ?_
  simp only [Mermaid.escapeChar, Mermaid.replacements, writtenFor_cons, writtenFor_nil]

end Workflow.Graph
