import Mathlib.Data.List.Forall2
import Workflow.Graph.Export
import Workflow.Proofs.Graph.ControlFlow
import Workflow.Proofs.Graph.Entity
import Workflow.Proofs.Text.Lines

/-! Mermaid text line by line. Line breaks are written as they are: there is one line for each vertex
and each edge if no text that is shown has a line break, and more if one has. -/
namespace Workflow.Graph.Mermaid

section lines

/-- The line of a vertex, with its label. -/
def vertexText (vertex : Vertex) (label : String) : String :=
  "    " ++ identifier vertex.path ++ (brackets vertex.shape).1 ++ "\"" ++ label ++ "\"" ++
    (brackets vertex.shape).2

/-- The line of an edge, with its label if it has one. -/
def edgeText (edge : Edge) (label : Option String) : String :=
  "    " ++ identifier edge.source ++
    (match label with
    | some label => " -->|\"" ++ label ++ "\"| "
    | none => " --> ") ++ identifier edge.target

/-- The lines before the graph, with the label of a title. -/
def titleTexts : Option String → List String
  | none => []
  | some label => ["---", "title: " ++ label, "---"]

def texts (options : Options) (graph : Graph) : List String :=
  titleTexts (options.title.map escape) ++ ["graph TD"] ++
    (graph.vertices.map fun vertex =>
      vertexText vertex ("<br/>".intercalate ((vertex.lines options.details).map escape))) ++
    graph.edges.map fun edge => edgeText edge (edge.label.map escape)

theorem titleLines_eq (title : Option String) :
    (title.map titleLines).getD "" = Text.unlines (titleTexts (title.map escape)) := by
  cases title with
  | none => rfl
  | some title =>
    have opening : "---\ntitle: " = "---" ++ "\n" ++ "title: " := by decide
    have closing : "\n---\n" = "\n" ++ "---" ++ "\n" := by decide
    have written : titleLines title =
        "---" ++ "\n" ++ "title: " ++ escape title ++ ("\n" ++ "---" ++ "\n") :=
      congrArg₂ (fun before after => before ++ escape title ++ after) opening closing
    rw [Option.map_some, Option.getD_some, written, Option.map_some, titleTexts, Text.unlines_cons,
      Text.unlines_cons, Text.unlines_cons, Text.unlines_nil]
    simp only [String.append_assoc, String.append_empty]

theorem vertexLine_eq (details : Bool) (vertex : Vertex) :
    vertexLine details vertex =
      vertexText vertex ("<br/>".intercalate ((vertex.lines details).map escape)) ++ "\n" := rfl

theorem edgeLine_eq (edge : Edge) :
    edgeLine edge = edgeText edge (edge.label.map escape) ++ "\n" := by
  unfold edgeLine edgeText
  cases edge.label <;> rfl

/-- The text line by line, if no line is broken. -/
theorem render_eq_unlines (options : Options) (graph : Graph) :
    render options graph = Text.unlines (texts options graph) := by
  have vertices := Text.join_map_eq_unlines (vertexLine_eq options.details) graph.vertices
  have edges := Text.join_map_eq_unlines edgeLine_eq graph.edges
  rw [render, titleLines_eq, vertices, edges, texts]
  simp only [Text.unlines_append]
  rfl

theorem newline_not_mem_brackets (shape : Shape) :
    '\n' ∉ (brackets shape).1.toList ∧ '\n' ∉ (brackets shape).2.toList := by
  cases shape <;> decide

theorem newline_mem_vertexText {vertex : Vertex} {label : String} :
    '\n' ∈ (vertexText vertex label).toList ↔ '\n' ∈ label.toList := by
  simp [vertexText, String.toList_append, newline_not_mem_identifier,
    newline_not_mem_brackets vertex.shape]

theorem newline_mem_edgeText {edge : Edge} {label : Option String} :
    '\n' ∈ (edgeText edge label).toList ↔ ∃ text ∈ label, '\n' ∈ text.toList := by
  cases label with
  | none => simp [edgeText, String.toList_append, newline_not_mem_identifier]
  | some text => simp [edgeText, String.toList_append, newline_not_mem_identifier]

theorem newline_mem_titleTexts {label : Option String} :
    (∃ line ∈ titleTexts label, '\n' ∈ line.toList) ↔ ∃ text ∈ label, '\n' ∈ text.toList := by
  cases label with
  | none => simp [titleTexts]
  | some text => simp [titleTexts, String.toList_append]

end lines

/-- All texts that are shown: the title, the lines of the vertices and the labels of the edges. -/
def shown (options : Options) (graph : Graph) : List String :=
  options.title.toList ++ graph.vertices.flatMap (·.lines options.details) ++
    graph.edges.filterMap (·.label)

theorem newline_mem_map_escape {text : Option String} :
    (∃ label ∈ text.map escape, '\n' ∈ label.toList) ↔ ∃ shown ∈ text, '\n' ∈ shown.toList := by
  cases text with
  | none => simp
  | some text => simp [newline_mem_escape]

theorem newline_mem_intercalate {lines : List String} :
    '\n' ∈ ("<br/>".intercalate (lines.map escape)).toList ↔
      ∃ line ∈ lines, '\n' ∈ line.toList := by
  rw [Text.mem_intercalate (by decide)]
  simp only [List.mem_map, exists_exists_and_eq_and, newline_mem_escape]

/-- A line break in a line comes from a text that is shown in it. -/
theorem newline_mem_texts (options : Options) (graph : Graph) :
    (∃ line ∈ texts options graph, '\n' ∈ line.toList) ↔
      ∃ text ∈ shown options graph, '\n' ∈ text.toList := by
  have title : (∃ line ∈ titleTexts (options.title.map escape), '\n' ∈ line.toList) ↔
      ∃ text ∈ options.title.toList, '\n' ∈ text.toList := by
    rw [newline_mem_titleTexts, newline_mem_map_escape]
    simp only [Option.mem_toList, Option.mem_def]
  have vertices : (∃ vertex ∈ graph.vertices, '\n' ∈ (vertexText vertex
        ("<br/>".intercalate ((vertex.lines options.details).map escape))).toList) ↔
      ∃ text ∈ graph.vertices.flatMap (·.lines options.details), '\n' ∈ text.toList := by
    simp only [newline_mem_vertexText, newline_mem_intercalate, List.mem_flatMap]
    exact ⟨fun ⟨vertex, mem, text, line, broken⟩ => ⟨text, ⟨vertex, mem, line⟩, broken⟩,
      fun ⟨text, ⟨vertex, mem, line⟩, broken⟩ => ⟨vertex, mem, text, line, broken⟩⟩
  have edges : (∃ edge ∈ graph.edges, '\n' ∈ (edgeText edge (edge.label.map escape)).toList) ↔
      ∃ text ∈ graph.edges.filterMap (·.label), '\n' ∈ text.toList := by
    simp only [newline_mem_edgeText, newline_mem_map_escape, List.mem_filterMap]
    exact ⟨fun ⟨edge, mem, text, label, broken⟩ => ⟨text, ⟨edge, mem, label⟩, broken⟩,
      fun ⟨text, ⟨edge, mem, label⟩, broken⟩ => ⟨edge, mem, text, label, broken⟩⟩
  have opening : ¬ '\n' ∈ "graph TD".toList := by decide
  simp only [texts, shown, List.mem_append, or_and_right, exists_or, title, List.mem_singleton,
    exists_eq_left, opening, or_false, List.mem_map, exists_exists_and_eq_and, vertices, edges]

theorem shows_map_escape (text : Option String) : Option.Rel Shows (text.map escape) text := by
  cases text with
  | none => exact .none
  | some text => exact .some (shows_escape text)

/-- The text has a part for each vertex and each edge, and three more for a title. These are its
lines if and only if nothing that is shown has a line break; a label is read as the text that it is
for if and only if that text has no entity of its own; and two texts have one label if and only if
they differ by such entities only. -/
theorem exportGraph_mermaid_spec (root : Node) (options : Options) :
    ∃ (title : Option String) (vertices edges : List String),
      let parts := titleTexts title ++ ["graph TD"] ++ vertices ++ edges
      let output := exportGraph .mermaid options root
      output = Text.unlines parts ∧
      Option.Rel Shows title options.title ∧
      List.Forall₂ (fun vertex part => ∃ lines,
        List.Forall₂ Shows lines (vertex.lines options.details) ∧
          part = vertexText vertex ("<br/>".intercalate lines)) (ofNode root).vertices vertices ∧
      vertices.length = root.count ∧
      List.Forall₂ (fun edge part => ∃ label, Option.Rel Shows label edge.label ∧
        part = edgeText edge label) (ofNode root).edges edges ∧
      edges.length + 1 = root.count ∧
      (Text.lines output = parts ++ [""] ↔
        ∀ text ∈ shown options (ofNode root), '\n' ∉ text.toList) ∧
      ((Text.lines output).length = parts.length + 1 ↔
        ∀ text ∈ shown options (ofNode root), '\n' ∉ text.toList) ∧
      ∀ first second, escape first = escape second ↔
        decode .written first.toList = decode .written second.toList := by
  have unbroken : (∀ line ∈ texts options (ofNode root), '\n' ∉ line.toList) ↔
      ∀ text ∈ shown options (ofNode root), '\n' ∉ text.toList := by
    simpa using not_congr (newline_mem_texts options (ofNode root))
  refine ⟨options.title.map escape, (ofNode root).vertices.map fun vertex =>
    vertexText vertex ("<br/>".intercalate ((vertex.lines options.details).map escape)),
    (ofNode root).edges.map fun edge => edgeText edge (edge.label.map escape),
    render_eq_unlines options (ofNode root), shows_map_escape options.title,
    ?_, ?_, ?_, ?_, ?_, ?_, fun first second => escape_eq_iff⟩
  · rw [List.forall₂_map_right_iff, List.forall₂_same]
    refine fun vertex _ => ⟨_, ?_, rfl⟩
    rw [List.forall₂_map_left_iff, List.forall₂_same]
    exact fun line _ => shows_escape line
  · rw [List.length_map, length_vertices]
  · rw [List.forall₂_map_right_iff, List.forall₂_same]
    exact fun edge _ => ⟨_, shows_map_escape edge.label, rfl⟩
  · rw [List.length_map, length_edges]
  · rw [exportGraph, render_eq_unlines, ← unbroken]
    exact Text.lines_unlines_iff
  · rw [exportGraph, render_eq_unlines, ← unbroken]
    exact Text.length_lines_unlines_iff

/-- A node without anything but a name. -/
def bare (name : String) : Node :=
  .mk name .empty (.leaf .empty)

/-- Nodes of different names have one graph if a name holds an entity, and a line break in a name
breaks the line of its node. -/
theorem exportGraph_mermaid_confuses :
    escape "&quot;" = escape "\"" ∧
    exportGraph .mermaid ⟨false, none⟩ (bare "&quot;") =
      exportGraph .mermaid ⟨false, none⟩ (bare "\"") ∧
    (bare "a\nb").count = 1 ∧
    Text.lines (exportGraph .mermaid ⟨false, none⟩ (bare "a\nb")) =
      ["graph TD", "    n0[\"a", "b\"]", ""] := by
  refine ⟨by decide, ?_, ?_, ?_⟩
  · decide +kernel
  · decide
  · decide +kernel

end Workflow.Graph.Mermaid
