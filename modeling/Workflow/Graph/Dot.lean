import Workflow.Graph.Basic

/-! Graphs as DOT text. -/
namespace Workflow.Graph.Dot

def escapeChar (c : Char) : List Char :=
  if c = '\\' then ['\\', '\\']
  else if c = '"' then ['\\', '"']
  else if c = '\n' then ['\\', 'n']
  else [c]

def escape (text : String) : String :=
  String.ofList (text.toList.flatMap escapeChar)

def attributes : Shape → String
  | .step => ""
  | .composite => ", style=\"rounded,dashed\""
  | .plumbing => ", shape=ellipse"
  | .decision => ", shape=diamond"
  | .pause => ", shape=hexagon"

def quotedIdentifier (path : Path) : String :=
  "\"" ++ identifier path ++ "\""

def vertexLine (details : Bool) (vertex : Vertex) : String :=
  let label := "\\n".intercalate ((vertex.lines details).map escape)
  "    " ++ quotedIdentifier vertex.path ++ " [label=\"" ++ label ++ "\"" ++
    attributes vertex.shape ++ "];\n"

def edgeLine (edge : Edge) : String :=
  let label :=
    match edge.label with
    | some label => " [label=\"" ++ escape label ++ "\"]"
    | none => ""
  "    " ++ quotedIdentifier edge.source ++ " -> " ++ quotedIdentifier edge.target ++ label ++ ";\n"

def header : String :=
  "digraph G \x7b\n    rankdir=TB;\n    node [shape=box, style=rounded];\n"

def titleLines (title : String) : String :=
  "    labelloc=\"t\";\n    label=\"" ++ escape title ++ "\";\n"

def render (options : Options) (graph : Graph) : String :=
  header ++ (options.title.map titleLines).getD "" ++
    String.join (graph.vertices.map (vertexLine options.details)) ++
    String.join (graph.edges.map edgeLine) ++ "\x7d\n"

end Workflow.Graph.Dot
