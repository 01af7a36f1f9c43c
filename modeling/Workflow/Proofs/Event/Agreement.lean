import Workflow.Proofs.Event.Filtering

/-! Three policies and one classification: what is kept under one of them is what is marked as for
the user under another. -/
namespace Workflow

/-- Failures and escalations are for the user, whoever they come from. -/
def Event.surfaces (event : Event) : Bool :=
  event.isFailure || event.isEscalation

/-- The stamp that an event takes under a map of classes; nothing else of the event changes. -/
structure VisibilityMap.Stamps (map : VisibilityMap) (event stamped : Event) : Prop where
  unchanged : stamped = { event with visibility := stamped.visibility }
  surfacing : event.surfaces = true → stamped.visibility = some .user
  known : event.surfaces = false → ∀ shown, map.get? event.author = some shown →
    stamped.visibility = some shown
  unknown : map.get? event.author = none → stamped.visibility = some .user

namespace EventFilter

variable {map : VisibilityMap} {policy other : VisibilityPolicy} {event : Event}

/-- The policy has no say in the class. -/
theorem classify_policy : classify ⟨map, policy⟩ event = classify ⟨map, other⟩ event := rfl

/-- Nor has a stamp that the event carries already. -/
theorem classify_stamped (filter : EventFilter) (event : Event) (stamp : Option Visibility) :
    filter.classify { event with visibility := stamp } = filter.classify event := rfl

theorem classify_of_surfaces (filter : EventFilter) (h : event.surfaces = true) :
    filter.classify event = .user := by
  unfold classify
  exact if_pos h

theorem stamps_classify (map : VisibilityMap) (event : Event) :
    map.Stamps event
      { event with visibility := some (classify ⟨map, policy⟩ event) } where
  unchanged := rfl
  surfacing h := congrArg some (classify_of_surfaces _ h)
  known quiet shown found := by
    have quiet : ¬(event.isFailure || event.isEscalation) = true := Bool.eq_false_iff.1 quiet
    simp only [classify, if_neg quiet, found, Option.getD_some]
  unknown absent := by
    simp only [classify, absent, Option.getD_none, ite_self]

theorem forall₂_stamps (map : VisibilityMap) (events : List Event) :
    List.Forall₂ map.Stamps events (applyAll ⟨map, .annotate⟩ events) := by
  rw [applyAll_annotate, List.forall₂_map_right_iff, List.forall₂_same]
  exact fun event _ => stamps_classify map event

/-- Position by position, an event is kept if and only if its stamp is that of the user. -/
theorem applyAll_filtered_eq_zip (map : VisibilityMap) (events : List Event) :
    applyAll ⟨map, .filtered⟩ events =
      ((events.zip (applyAll ⟨map, .annotate⟩ events)).filter fun (_, stamped) =>
        stamped.visibility = some .user).map Prod.fst := by
  rw [applyAll_filtered, applyAll_annotate]
  induction events with
  | nil => rfl
  | cons event events ih =>
    have stamp : (some (classify ⟨map, .annotate⟩ event) = some .user) ↔
        classify ⟨map, .filtered⟩ event = .user := by
      rw [Option.some.injEq, classify_policy]
    simp only [List.map_cons, List.zip_cons_cons, List.filter_cons, stamp, ih]
    by_cases shown : classify ⟨map, .filtered⟩ event = .user
    · simp only [shown, decide_true, if_true, List.map_cons]
    · simp only [shown, decide_false, Bool.false_eq_true, if_false]

/-- What surfaces is never suppressed. -/
theorem filter_surfaces_applyAll (map : VisibilityMap) (events : List Event) :
    (applyAll ⟨map, .filtered⟩ events).filter Event.surfaces = events.filter Event.surfaces := by
  rw [applyAll_filtered, List.filter_filter]
  refine List.filter_congr fun event _ => ?_
  cases surfacing : event.surfaces with
  | false => rfl
  | true => simp only [classify_of_surfaces _ surfacing, decide_true, Bool.and_self]

theorem applyAll_applyAll (filter : EventFilter) (events : List Event) :
    filter.applyAll (filter.applyAll events) = filter.applyAll events := by
  obtain ⟨map, policy⟩ := filter
  cases policy with
  | transparent => simp only [applyAll_transparent]
  | filtered => simp only [applyAll_filtered, List.filter_filter, Bool.and_self]
  | annotate => simp only [applyAll_annotate, List.map_map, Function.comp_def, classify_stamped]

/-- Annotating stamps every event with its class and changes nothing else; filtering keeps the
events at the positions where this stamp is that of the user; showing all changes nothing. What
surfaces is kept, and to filter again changes nothing. -/
theorem applyAll_agree (map : VisibilityMap) (events : List Event) :
    let annotated := applyAll ⟨map, .annotate⟩ events
    let kept := applyAll ⟨map, .filtered⟩ events
    List.Forall₂ map.Stamps events annotated ∧
    kept = ((events.zip annotated).filter fun (_, stamped) =>
      stamped.visibility = some .user).map Prod.fst ∧
    applyAll ⟨map, .transparent⟩ events = events ∧
    kept.filter Event.surfaces = events.filter Event.surfaces ∧
    ∀ policy, applyAll ⟨map, policy⟩ (applyAll ⟨map, policy⟩ events) =
      applyAll ⟨map, policy⟩ events := by
  intro annotated kept
  refine ⟨forall₂_stamps map events, applyAll_filtered_eq_zip map events, applyAll_transparent,
    filter_surfaces_applyAll map events, fun policy => ?_⟩
  exact applyAll_applyAll ⟨map, policy⟩ events

end EventFilter

end Workflow
