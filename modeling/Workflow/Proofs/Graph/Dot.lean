import Mathlib.Algebra.Ring.Parity
import Mathlib.Data.List.DropRight
import Mathlib.Data.List.Forall2
import Workflow.Graph.Export
import Workflow.Proofs.Graph.ControlFlow
import Workflow.Proofs.Text.Lines

/-! DOT text has one line for each vertex and each edge, and gives back every text that is shown. -/
namespace Workflow.Graph.Dot

/-- Undoes the escapes of a label, left to right. A quotation mark without a backslash would end the
label, and a backslash has to be followed by what it stands for. -/
def unescape : List Char → Option (List Char)
  | [] => some []
  | '\\' :: '\\' :: rest => (unescape rest).map ('\\' :: ·)
  | '\\' :: '"' :: rest => (unescape rest).map ('"' :: ·)
  | '\\' :: 'n' :: rest => (unescape rest).map ('\n' :: ·)
  | c :: rest => if c = '\\' ∨ c = '"' then none else (unescape rest).map (c :: ·)

/-- The backslashes at the end of a text. -/
def backslashes (text : List Char) : List Char :=
  text.rtakeWhile (· = '\\')

/-- Stands between quotation marks for a text. -/
structure Quotes (label text : String) : Prop where
  /-- Every quotation mark has an odd run of backslashes before it. -/
  escaped : ∀ before after, label.toList = before ++ '"' :: after → Odd (backslashes before).length
  /-- The quotation mark behind the label has not. -/
  closed : Even (backslashes label.toList).length
  unbroken : '\n' ∉ label.toList
  read : unescape label.toList = some text.toList

theorem escapeChar_cases (c : Char) :
    (c = '\\' ∧ escapeChar c = ['\\', '\\']) ∨ (c = '"' ∧ escapeChar c = ['\\', '"']) ∨
      (c = '\n' ∧ escapeChar c = ['\\', 'n']) ∨
      ((c ≠ '\\' ∧ c ≠ '"' ∧ c ≠ '\n') ∧ escapeChar c = [c]) := by
  by_cases backslash : c = '\\'
  · exact .inl ⟨backslash, if_pos backslash⟩
  by_cases quotation : c = '"'
  · exact .inr (.inl ⟨quotation, by rw [quotation]; rfl⟩)
  by_cases newline : c = '\n'
  · exact .inr (.inr (.inl ⟨newline, by rw [newline]; rfl⟩))
  · refine .inr (.inr (.inr ⟨⟨backslash, quotation, newline⟩, ?_⟩))
    rw [escapeChar, if_neg backslash, if_neg quotation, if_neg newline]

theorem unescape_cons {c : Char} (backslash : c ≠ '\\') (quotation : c ≠ '"') (rest : List Char) :
    unescape (c :: rest) = (unescape rest).map (c :: ·) := by
  simp [unescape, backslash, quotation]

theorem unescape_escapeChar (c : Char) (rest : List Char) :
    unescape (escapeChar c ++ rest) = (unescape rest).map (c :: ·) := by
  obtain ⟨rfl, eq⟩ | ⟨rfl, eq⟩ | ⟨rfl, eq⟩ | ⟨⟨backslash, quotation, -⟩, eq⟩ := escapeChar_cases c
  all_goals rw [eq]
  · simp [unescape]
  · simp [unescape]
  · simp [unescape]
  · exact unescape_cons backslash quotation rest

theorem unescape_flatMap (text : List Char) : unescape (text.flatMap escapeChar) = some text := by
  induction text with
  | nil => rfl
  | cons c text ih => rw [List.flatMap_cons, unescape_escapeChar, ih, Option.map_some]

theorem newline_not_mem_escapeChar (c : Char) : '\n' ∉ escapeChar c := by
  obtain ⟨-, eq⟩ | ⟨-, eq⟩ | ⟨-, eq⟩ | ⟨⟨-, -, newline⟩, eq⟩ := escapeChar_cases c
  all_goals rw [eq]
  · decide
  · decide
  · decide
  · exact fun mem => newline (List.mem_singleton.1 mem).symm

section pending

/-- Whether a backslash waits for the character behind it, read from the left. -/
def pending (waiting : Bool) (c : Char) : Bool :=
  !waiting && c = '\\'

/-- Seen from the right, a backslash waits if the run at the end is odd. -/
theorem odd_backslashes_iff (text : List Char) :
    Odd (backslashes text).length ↔ text.foldl pending false = true := by
  induction text using List.reverseRecOn with
  | nil => decide
  | append_singleton text c ih =>
    rw [List.foldl_append, List.foldl_cons, List.foldl_nil, backslashes, List.rtakeWhile_concat]
    by_cases backslash : c = '\\'
    · simp only [backslash, decide_true, if_true, List.length_append, List.length_singleton]
      rw [Nat.odd_add_one, ← backslashes, ih]
      simp [pending]
    · simp [backslash, pending]

theorem foldl_pending_escapeChar (c : Char) : (escapeChar c).foldl pending false = false := by
  obtain ⟨-, eq⟩ | ⟨-, eq⟩ | ⟨-, eq⟩ | ⟨⟨backslash, -⟩, eq⟩ := escapeChar_cases c
  all_goals rw [eq]
  · rfl
  · rfl
  · rfl
  · simp [pending, backslash]

/-- No backslash waits behind what is escaped. -/
theorem foldl_pending_flatMap (text : List Char) :
    (text.flatMap escapeChar).foldl pending false = false := by
  induction text with
  | nil => rfl
  | cons c text ih => rw [List.flatMap_cons, List.foldl_append, foldl_pending_escapeChar, ih]

theorem eq_singleton_of_escapeChar {c : Char} {before after : List Char}
    (h : before ++ '"' :: after = escapeChar c) : before = ['\\'] := by
  have mem : '"' ∈ escapeChar c := h ▸ List.mem_append_right before List.mem_cons_self
  obtain ⟨-, eq⟩ | ⟨-, eq⟩ | ⟨-, eq⟩ | ⟨⟨-, quotation, -⟩, eq⟩ := escapeChar_cases c
  · exact absurd (eq ▸ mem) (by decide)
  · rw [eq] at h
    rcases before with _ | ⟨first, _ | ⟨second, before⟩⟩
    · exact absurd (List.cons.inj h).1 (by decide)
    · rw [(List.cons.inj h).1]
    · simp at h
  · exact absurd (eq ▸ mem) (by decide)
  · exact absurd (List.mem_singleton.1 (eq ▸ mem)).symm quotation

/-- A quotation mark in what is escaped has a backslash waiting for it. -/
theorem foldl_pending_before {text before after : List Char}
    (h : text.flatMap escapeChar = before ++ '"' :: after) : before.foldl pending false = true := by
  induction text generalizing before with
  | nil => simp at h
  | cons c text ih =>
    rw [List.flatMap_cons, List.append_eq_append_iff] at h
    -- The quotation mark stands behind the first character, or is part of what it is written as.
    rcases h with ⟨between, rfl, h⟩ | ⟨between, first, h⟩
    · rw [List.foldl_append, foldl_pending_escapeChar]
      exact ih h
    · cases between with
      | nil => exact absurd (@ih [] h.symm) Bool.false_ne_true
      | cons mark between =>
        obtain ⟨rfl, -⟩ := List.cons.inj h
        rw [eq_singleton_of_escapeChar first.symm]
        rfl

end pending

theorem quotes_escape (text : String) : Quotes (escape text) text where
  escaped before after h := by
    rw [escape, String.toList_ofList] at h
    exact (odd_backslashes_iff before).2 (foldl_pending_before h)
  closed := by
    rw [← Nat.not_odd_iff_even, odd_backslashes_iff, escape, String.toList_ofList,
      foldl_pending_flatMap]
    decide
  unbroken := by
    rw [escape, String.toList_ofList, List.mem_flatMap]
    exact fun ⟨c, _, mem⟩ => newline_not_mem_escapeChar c mem
  read := by rw [escape, String.toList_ofList, unescape_flatMap]

theorem escape_append (first second : String) :
    escape (first ++ second) = escape first ++ escape second := by
  simp only [escape, String.toList_append, List.flatMap_append, String.ofList_append]

/-- Lines are escaped one by one, with an escaped line break between them. -/
theorem intercalate_escape (lines : List String) :
    "\\n".intercalate (lines.map escape) = escape ("\n".intercalate lines) := by
  induction lines with
  | nil => rfl
  | cons first lines ih =>
    cases lines with
    | nil => simp only [List.map_singleton, String.intercalate_singleton]
    | cons second lines =>
      rw [List.map_cons, List.map_cons, String.intercalate_cons_cons, ← List.map_cons, ih,
        String.intercalate_cons_cons, escape_append, escape_append]
      rfl

section lines

/-- The line of a vertex, with what stands between the quotation marks of its label. -/
def vertexText (vertex : Vertex) (label : String) : String :=
  "    " ++ quotedIdentifier vertex.path ++ " [label=\"" ++ label ++ "\"" ++
    attributes vertex.shape ++ "];"

/-- The line of an edge, with what stands between the quotation marks of its label if it has one. -/
def edgeText (edge : Edge) (label : Option String) : String :=
  "    " ++ quotedIdentifier edge.source ++ " -> " ++ quotedIdentifier edge.target ++
    (match label with
    | some label => " [label=\"" ++ label ++ "\"]"
    | none => "") ++ ";"

theorem vertexLine_eq (details : Bool) (vertex : Vertex) :
    vertexLine details vertex =
      vertexText vertex (escape ("\n".intercalate (vertex.lines details))) ++ "\n" := by
  rw [vertexText, String.append_assoc, ← intercalate_escape]
  rfl

theorem edgeLine_eq (edge : Edge) :
    edgeLine edge = edgeText edge (edge.label.map escape) ++ "\n" := by
  unfold edgeText
  rw [String.append_assoc]
  unfold edgeLine
  cases edge.label <;> rfl

/-- The lines before the vertices, with what stands between the quotation marks of a title. -/
def titleTexts : Option String → List String
  | none => []
  | some label => ["    labelloc=\"t\";", "    label=\"" ++ label ++ "\";"]

theorem titleLines_eq (title : Option String) :
    (title.map titleLines).getD "" = Text.unlines (titleTexts (title.map escape)) := by
  cases title with
  | none => rfl
  | some title =>
    have setting : "    labelloc=\"t\";\n    label=\"" =
      "    labelloc=\"t\";" ++ "\n" ++ "    label=\"" := by decide
    have written : titleLines title =
        "    labelloc=\"t\";" ++ "\n" ++ "    label=\"" ++ escape title ++ ("\";" ++ "\n") :=
      congrArg (· ++ escape title ++ "\";\n") setting
    rw [Option.map_some, Option.getD_some, written, Option.map_some, titleTexts, Text.unlines_cons,
      Text.unlines_cons, Text.unlines_nil]
    simp only [String.append_assoc, String.append_empty]

theorem header_eq :
    header = Text.unlines
      ["digraph G \x7b", "    rankdir=TB;", "    node [shape=box, style=rounded];"] := by
  decide

def texts (options : Options) (graph : Graph) : List String :=
  ["digraph G \x7b", "    rankdir=TB;", "    node [shape=box, style=rounded];"] ++
    titleTexts (options.title.map escape) ++
    (graph.vertices.map fun vertex =>
      vertexText vertex (escape ("\n".intercalate (vertex.lines options.details)))) ++
    (graph.edges.map fun edge => edgeText edge (edge.label.map escape)) ++ ["\x7d"]

/-- The text line by line. -/
theorem render_eq_unlines (options : Options) (graph : Graph) :
    render options graph = Text.unlines (texts options graph) := by
  have vertices := Text.join_map_eq_unlines (vertexLine_eq options.details) graph.vertices
  have edges := Text.join_map_eq_unlines edgeLine_eq graph.edges
  rw [render, header_eq, titleLines_eq, vertices, edges, texts]
  simp only [Text.unlines_append]
  rfl

theorem newline_not_mem_quotedIdentifier (path : Path) :
    '\n' ∉ (quotedIdentifier path).toList := by
  simp only [quotedIdentifier, String.toList_append, List.mem_append, not_or]
  exact ⟨⟨by decide, newline_not_mem_identifier path⟩, by decide⟩

theorem newline_not_mem_attributes (shape : Shape) : '\n' ∉ (attributes shape).toList := by
  cases shape <;> decide

theorem newline_not_mem_vertexText (vertex : Vertex) {label : String} (h : '\n' ∉ label.toList) :
    '\n' ∉ (vertexText vertex label).toList := by
  simp only [vertexText, String.toList_append, List.mem_append, not_or]
  refine ⟨⟨⟨⟨⟨⟨by decide, ?_⟩, by decide⟩, h⟩, by decide⟩, ?_⟩, by decide⟩
  · exact newline_not_mem_quotedIdentifier vertex.path
  · exact newline_not_mem_attributes vertex.shape

theorem newline_not_mem_edgeText (edge : Edge) {label : Option String}
    (h : ∀ text ∈ label, '\n' ∉ text.toList) : '\n' ∉ (edgeText edge label).toList := by
  simp only [edgeText, String.toList_append, List.mem_append, not_or]
  refine ⟨⟨⟨⟨⟨by decide, ?_⟩, by decide⟩, ?_⟩, ?_⟩, by decide⟩
  · exact newline_not_mem_quotedIdentifier edge.source
  · exact newline_not_mem_quotedIdentifier edge.target
  · cases label with
    | none => exact List.not_mem_nil
    | some text =>
      simp only [String.toList_append, List.mem_append, not_or]
      exact ⟨⟨by decide, h text rfl⟩, by decide⟩

theorem newline_not_mem_titleTexts {label : Option String}
    (h : ∀ text ∈ label, '\n' ∉ text.toList) : ∀ line ∈ titleTexts label, '\n' ∉ line.toList := by
  cases label with
  | none => exact List.forall_mem_nil _
  | some text =>
    simp only [titleTexts, List.forall_mem_cons, String.toList_append, List.mem_append, not_or]
    exact ⟨by decide, ⟨⟨by decide, h text rfl⟩, by decide⟩, List.forall_mem_nil _⟩

end lines

theorem quotes_map_escape (text : Option String) : Option.Rel Quotes (text.map escape) text := by
  cases text with
  | none => exact .none
  | some text => exact .some (quotes_escape text)

theorem unbroken_map_escape (text : Option String) :
    ∀ label ∈ text.map escape, '\n' ∉ label.toList := by
  cases text with
  | none => exact fun _ absent => nomatch absent
  | some text =>
    intro label escaped
    obtain rfl := Option.mem_some.1 escaped
    exact (quotes_escape text).unbroken

/-- Whatever is shown, no line is broken. -/
theorem newline_not_mem_texts (options : Options) (graph : Graph) :
    ∀ line ∈ texts options graph, '\n' ∉ line.toList := by
  simp only [texts, List.forall_mem_append, List.forall_mem_map]
  refine ⟨⟨⟨⟨by decide, ?_⟩, fun vertex _ => ?_⟩, fun edge _ => ?_⟩, by decide⟩
  · exact newline_not_mem_titleTexts (unbroken_map_escape options.title)
  · exact newline_not_mem_vertexText vertex (quotes_escape _).unbroken
  · exact newline_not_mem_edgeText edge (unbroken_map_escape edge.label)

/-- Between fixed lines at both ends there are two lines for a title, one for each vertex and one
for each edge, and what stands between quotation marks gives back the text that it is for. -/
theorem lines_exportGraph_dot (root : Node) (options : Options) :
    ∃ (title : Option String) (vertices edges : List String),
      Text.lines (exportGraph .dot options root) =
        ["digraph G \x7b", "    rankdir=TB;", "    node [shape=box, style=rounded];"] ++
          titleTexts title ++ vertices ++ edges ++ ["\x7d", ""] ∧
      Option.Rel Quotes title options.title ∧
      List.Forall₂ (fun vertex line => ∃ label,
        Quotes label ("\n".intercalate (vertex.lines options.details)) ∧
          line = vertexText vertex label) (ofNode root).vertices vertices ∧
      vertices.length = root.count ∧
      List.Forall₂ (fun edge line => ∃ label, Option.Rel Quotes label edge.label ∧
        line = edgeText edge label) (ofNode root).edges edges ∧
      edges.length + 1 = root.count := by
  refine ⟨options.title.map escape, (ofNode root).vertices.map fun vertex =>
    vertexText vertex (escape ("\n".intercalate (vertex.lines options.details))),
    (ofNode root).edges.map fun edge => edgeText edge (edge.label.map escape),
    ?_, quotes_map_escape options.title, ?_, ?_, ?_, ?_⟩
  · rw [exportGraph, render_eq_unlines, Text.lines_unlines (newline_not_mem_texts options _), texts,
      List.append_assoc _ ["\x7d"] [""], List.singleton_append]
  · rw [List.forall₂_map_right_iff, List.forall₂_same]
    exact fun vertex _ => ⟨_, quotes_escape _, rfl⟩
  · rw [List.length_map, length_vertices]
  · rw [List.forall₂_map_right_iff, List.forall₂_same]
    exact fun edge _ => ⟨_, quotes_map_escape edge.label, rfl⟩
  · rw [List.length_map, length_edges]

end Workflow.Graph.Dot
