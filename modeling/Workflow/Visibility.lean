import Workflow.Json.Record

/-! Whether the output of a node reaches an observer. -/
namespace Workflow

inductive Visibility where
  /-- State plumbing, which has nothing to show. -/
  | zeroCost
  /-- Intermediate output that feeds a later step. -/
  | internal
  | user
deriving DecidableEq, Repr

namespace Visibility

def rank : Visibility → Nat
  | .zeroCost => 0
  | .internal => 1
  | .user => 2

instance : LE Visibility := ⟨fun a b => a.rank ≤ b.rank⟩

instance (a b : Visibility) : Decidable (a ≤ b) :=
  inferInstanceAs (Decidable (a.rank ≤ b.rank))

instance : Max Visibility := ⟨fun a b => if a ≤ b then b else a⟩

def name : Visibility → String
  | .zeroCost => "zero_cost"
  | .internal => "internal"
  | .user => "user"

def ofName? (name : String) : Option Visibility :=
  [zeroCost, internal, user].find? fun visibility => visibility.name == name

def toJson (visibility : Visibility) : Json :=
  .string visibility.name

def ofJson? (context : Json.Context) (json : Json) : Option Visibility :=
  (json.plainName? context).bind ofName?

end Visibility

/-- How visibility classes are applied to events. -/
inductive VisibilityPolicy where
  /-- Everything that is not plumbing is visible. -/
  | transparent
  /-- Internal events are suppressed. -/
  | filtered
  /-- Events are marked with their class instead of suppressed. -/
  | annotate
deriving DecidableEq, Repr

namespace VisibilityPolicy

def name : VisibilityPolicy → String
  | .transparent => "transparent"
  | .filtered => "filtered"
  | .annotate => "annotate"

def ofName? (name : String) : Option VisibilityPolicy :=
  [transparent, filtered, annotate].find? fun policy => policy.name == name

def toJson (policy : VisibilityPolicy) : Json :=
  .string policy.name

def ofJson? (context : Json.Context) (json : Json) : Option VisibilityPolicy :=
  (json.plainName? context).bind ofName?

end VisibilityPolicy

/-- The class of each name. -/
abbrev VisibilityMap := KeyMap Visibility

def VisibilityMap.toJson (map : VisibilityMap) : Json :=
  .object (map.toList.map fun (name, visibility) => (name, visibility.toJson))

end Workflow
