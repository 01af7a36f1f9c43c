import Workflow.Json.Basic

/-! Tables of a TOML document under construction, and what may be defined where. -/
namespace Workflow.Toml

/-- How a table came to be. -/
inductive Origin where
  /-- By a header, or as the document itself. -/
  | header
  /-- By the header of a table inside of it; its own header may still come. -/
  | implied
  /-- By points in the key of a definition. -/
  | dotted
deriving DecidableEq

mutual

inductive Table where
  | mk (origin : Origin) (entries : List (String × Item))

inductive Item where
  | value (json : Json)
  | table (table : Table)
  /-- An array of tables, which is never empty. -/
  | tables (earlier : List Table) (last : Table)

end

namespace Table

def empty : Table := .mk .header []

def origin : Table → Origin
  | .mk origin _ => origin

def entries : Table → List (String × Item)
  | .mk _ entries => entries

def get? (table : Table) (key : String) : Option Item :=
  table.entries.lookup key

/-- Replaces an entry where it stands, or puts it at the end. -/
def set (table : Table) (key : String) (item : Item) : Table :=
  if (table.get? key).isSome then
    .mk table.origin (table.entries.map fun entry => if entry.1 = key then (key, item) else entry)
  else .mk table.origin (table.entries ++ [(key, item)])

/-- Changes the table at a path, making tables that are not there. Points in a key lead only into tables that have
no header of their own; headers lead into all. Of an array of tables the last is meant. -/
def update (dotted : Bool) : List String → (Table → Option Table) → Table → Option Table
  | [], change, table => change table
  | key :: path, change, table =>
    match table.get? key with
    | none => do
      let inner ← update dotted path change (.mk (if dotted then .dotted else .implied) [])
      return table.set key (.table inner)
    | some (.value _) => none
    | some (.table inner) =>
      if dotted ∧ inner.origin = .header then none
      else do return table.set key (.table (← update dotted path change inner))
    | some (.tables earlier last) => do
      return table.set key (.tables earlier (← update dotted path change last))

/-- Puts a value under a key that is free. Points in the key lead into tables of their own kind. -/
def insertValue (behindPoint : Bool) (key : String) (value : Json) (table : Table) : Option Table :=
  if (table.origin == .dotted) == behindPoint && (table.get? key).isNone then
    some (table.set key (.value value))
  else none

/-- Defines a value in the table. -/
def define (table : Table) (path : List String) (value : Json) : Option Table :=
  path.getLast?.bind fun key =>
    table.update true path.dropLast (insertValue (path.length ≠ 1) key value)

/-- Defines a value in the table under a header. -/
def defineIn (root : Table) (header path : List String) (value : Json) : Option Table :=
  root.update false header fun table => table.define path value

/-- Begins a table by its header. A table has one header at most. -/
def openTable (root : Table) (path : List String) : Option Table :=
  path.getLast?.bind fun key =>
    root.update false path.dropLast fun parent =>
      match parent.get? key with
      | none => some (parent.set key (.table .empty))
      | some (.table (.mk .implied entries)) => some (parent.set key (.table (.mk .header entries)))
      | some _ => none

/-- Begins one more element of an array of tables. -/
def appendElement (root : Table) (path : List String) : Option Table :=
  path.getLast?.bind fun key =>
    root.update false path.dropLast fun parent =>
      match parent.get? key with
      | none => some (parent.set key (.tables [] .empty))
      | some (.tables earlier last) => some (parent.set key (.tables (earlier ++ [last]) .empty))
      | some _ => none

mutual

def toJson : Table → Json
  | .mk _ entries => .object (entriesToJson entries)

def entriesToJson : List (String × Item) → List (String × Json)
  | [] => []
  | (key, item) :: rest => (key, itemToJson item) :: entriesToJson rest

def itemToJson : Item → Json
  | .value json => json
  | .table table => table.toJson
  | .tables earlier last => .array (listToJson earlier ++ [last.toJson])

def listToJson : List Table → List Json
  | [] => []
  | first :: rest => first.toJson :: listToJson rest

end

end Table

end Workflow.Toml
