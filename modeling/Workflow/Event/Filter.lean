import Workflow.Event.Basic
import Workflow.Inference

/-! Filtering events by the visibility of their authors. -/
namespace Workflow

structure EventFilter where
  map : VisibilityMap
  policy : VisibilityPolicy

namespace EventFilter

/-- A filter for the nodes of a tree. -/
def ofNode (root : Node) (policy : VisibilityPolicy) : EventFilter :=
  ⟨inferVisibility root policy, policy⟩

/-- Failures and escalations are always for the user, and so is what comes from unknown authors. -/
def classify (filter : EventFilter) (event : Event) : Visibility :=
  if event.isFailure || event.isEscalation then .user
  else (filter.map.get? event.author).getD .user

/-- The event as it is shown, or nothing if it is suppressed. -/
def apply (filter : EventFilter) (event : Event) : Option Event :=
  match filter.policy with
  | .transparent => some event
  | .filtered => if filter.classify event = .user then some event else none
  | .annotate => some { event with visibility := some (filter.classify event) }

def applyAll (filter : EventFilter) (events : List Event) : List Event :=
  events.filterMap filter.apply

end EventFilter

end Workflow
