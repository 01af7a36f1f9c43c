import Workflow.Graph.Basic

/-! Graphs as Mermaid text. -/
namespace Workflow.Graph.Mermaid

def escapeChar (c : Char) : List Char :=
  if c = '"' then "&quot;".toList
  else if c = '<' then "&lt;".toList
  else if c = '>' then "&gt;".toList
  else [c]

def escape (text : String) : String :=
  String.ofList (text.toList.flatMap escapeChar)

/-- The brackets that give a vertex its shape. -/
def brackets : Shape → String × String
  | .step => ("[", "]")
  | .composite => ("[[", "]]")
  | .plumbing => ("([", "])")
  | .decision => ("\x7b", "\x7d")
  | .pause => ("\x7b\x7b", "\x7d\x7d")

def vertexLine (details : Bool) (vertex : Vertex) : String :=
  let label := "<br/>".intercalate ((vertex.lines details).map escape)
  let brackets := brackets vertex.shape
  "    " ++ identifier vertex.path ++ brackets.1 ++ "\"" ++ label ++ "\"" ++ brackets.2 ++ "\n"

def edgeLine (edge : Edge) : String :=
  let arrow :=
    match edge.label with
    | some label => " -->|\"" ++ escape label ++ "\"| "
    | none => " --> "
  "    " ++ identifier edge.source ++ arrow ++ identifier edge.target ++ "\n"

def titleLines (title : String) : String :=
  "---\ntitle: " ++ escape title ++ "\n---\n"

def render (options : Options) (graph : Graph) : String :=
  (options.title.map titleLines).getD "" ++ "graph TD\n" ++
    String.join (graph.vertices.map (vertexLine options.details)) ++
    String.join (graph.edges.map edgeLine)

end Workflow.Graph.Mermaid
