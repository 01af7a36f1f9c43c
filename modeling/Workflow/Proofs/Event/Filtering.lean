import Mathlib.Data.List.Forall2
import Workflow.Proofs.Contract.Compilation
import Workflow.Proofs.Visibility.Terminal

/-! What a run with canned responses shows: every step without steps below it has an event, and the
policy decides by the class of the step what becomes of the event. -/
namespace Workflow

namespace EventFilter

variable {map : VisibilityMap} {events : List Event}

theorem applyAll_transparent : applyAll ⟨map, .transparent⟩ events = events :=
  List.filterMap_some

theorem applyAll_filtered :
    applyAll ⟨map, .filtered⟩ events =
      events.filter fun event => classify ⟨map, .filtered⟩ event = .user := by
  unfold applyAll
  rw [← List.filterMap_eq_filter]
  refine List.filterMap_congr fun event _ => ?_
  simp [apply, Option.guard]

theorem applyAll_annotate :
    applyAll ⟨map, .annotate⟩ events = events.map fun event =>
      { event with visibility := some (classify ⟨map, .annotate⟩ event) } := by
  unfold applyAll
  rw [← List.filterMap_eq_map]
  rfl

/-- An event that is neither a failure nor an escalation has the class of its author. -/
theorem classify_eq {filter : EventFilter} {event : Event} {shown : Visibility}
    (success : event.failure = none) (calm : event.actions.escalate = false)
    (known : filter.map.get? event.author = some shown) : filter.classify event = shown := by
  simp [classify, Event.isFailure, Event.isEscalation, success, calm, known]

end EventFilter

/-- The event with which a node answers a turn: what the table has for its name, or a text that says
that there is nothing. -/
structure ResponseTable.Answers (table : ResponseTable) (turn : Turn) (node : Node) (event : Event) :
    Prop where
  author : event.author = node.name
  invocation : event.invocation = turn.invocation
  carries : match table.get? node.name with
    | some (.text text) => event.content = some text ∧ event.actions = .none
    | some (.state delta) =>
      event.content = none ∧ event.actions = { EventActions.none with stateDelta := delta }
    | none => event.content = some ("[mock:" ++ node.name ++ "]") ∧ event.actions = .none
  failure : event.failure = none
  complete : event.isPartial = false
  unmarked : event.visibility = none

theorem ResponseTable.Answers.calm {table : ResponseTable} {turn : Turn} {node : Node}
    {event : Event} (h : table.Answers turn node event) : event.actions.escalate = false := by
  have carries := h.carries
  split at carries
  all_goals rw [carries.2]; rfl

namespace Replay

variable {table : ResponseTable} {turn : Turn}

theorem answers_eventOf (table : ResponseTable) (turn : Turn) (node : Node) :
    table.Answers turn node ((eventOf table node.name).withInvocation turn.invocation) where
  author := by unfold eventOf; split <;> rfl
  invocation := rfl
  carries := by
    unfold eventOf
    cases table.get? node.name with
    | none => exact ⟨rfl, rfl⟩
    | some response => cases response <;> exact ⟨rfl, rfl⟩
  failure := by unfold eventOf; split <;> rfl
  complete := by unfold eventOf; split <;> rfl
  unmarked := by unfold eventOf; split <;> rfl

/-- The nodes without steps below them answer, in order. -/
theorem fold_step (table : ResponseTable) (root : Node) :
    root.fold (step table) =
      (root.steps.filter (·.children.isEmpty)).map fun node => eventOf table node.name := by
  induction root using Tree.induction with
  | step root ih =>
    have below : (root.kind.map (Tree.fold (step table))).children.flatten =
        ((root.children.flatMap Tree.steps).filter (·.children.isEmpty)).map
          fun node => eventOf table node.name := by
      rw [Kind.children_map, List.filter_flatMap, List.map_flatMap, ← List.flatMap_def]
      exact List.flatMap_congr ih
    rw [Tree.fold_eq, step, Tree.steps_eq, List.filter_cons, below]
    cases childless : root.children.isEmpty with
    | true => simp [List.isEmpty_iff.1 childless]
    | false => rfl

theorem events_eq (table : ResponseTable) (invocation : String) (root : Node) :
    events table invocation root =
      (root.steps.filter (·.children.isEmpty)).map fun node =>
        (eventOf table node.name).withInvocation invocation := by
  rw [events, fold_step, List.map_map]
  rfl

theorem answers_events (table : ResponseTable) (turn : Turn) (root : Node) :
    List.Forall₂ (table.Answers turn) (root.steps.filter (·.children.isEmpty))
      (events table turn.invocation root) := by
  rw [events_eq, List.forall₂_map_right_iff, List.forall₂_same]
  exact fun node _ => answers_eventOf table turn node

end Replay

section

variable {table : ResponseTable} {root : Node} {turn : Turn}

/-- The events of a run are neither failures nor escalations, and their authors have classes. -/
theorem exists_classify_eq {event : Event} (mem : event ∈ Replay.events table turn.invocation root)
    (policy other : VisibilityPolicy) :
    ∃ shown, (inferVisibility root policy).get? event.author = some shown ∧
      EventFilter.classify ⟨inferVisibility root policy, other⟩ event = shown := by
  rw [Replay.events_eq] at mem
  obtain ⟨node, among, rfl⟩ := List.mem_map.1 mem
  have answers := Replay.answers_eventOf table turn node
  obtain ⟨place, at_⟩ := Tree.mem_steps_iff_at?.1 (List.mem_of_mem_filter among)
  obtain ⟨shown, known⟩ := exists_get?_inferVisibility.2 ⟨place, node, at_, answers.author.symm⟩
  exact ⟨shown, known, EventFilter.classify_eq answers.failure answers.calm known⟩

theorem applyAll_events_filtered :
    EventFilter.applyAll ⟨inferVisibility root .filtered, .filtered⟩
        (Replay.events table turn.invocation root) =
      (Replay.events table turn.invocation root).filter fun event =>
        (inferVisibility root .filtered).get? event.author = some .user := by
  rw [EventFilter.applyAll_filtered]
  refine List.filter_congr fun event mem => ?_
  obtain ⟨shown, known, classified⟩ := exists_classify_eq mem .filtered .filtered
  simp [known, classified]

theorem applyAll_events_annotate :
    EventFilter.applyAll ⟨inferVisibility root .annotate, .annotate⟩
        (Replay.events table turn.invocation root) =
      (Replay.events table turn.invocation root).map fun event =>
        { event with visibility := (inferVisibility root .filtered).get? event.author } := by
  rw [EventFilter.applyAll_annotate]
  refine List.map_congr_left fun event mem => ?_
  obtain ⟨shown, known, classified⟩ := exists_classify_eq mem .annotate .annotate
  rw [inferVisibility_annotate] at known
  rw [known, classified]

/-- A run has one event for every node without steps below it, in order. Of these the filter keeps
the ones whose authors are for the user, or marks them all, or shows them all as they are. -/
theorem applyAll_run (table : ResponseTable) (root : Node) (turn : Turn) (config : Config) :
    ∃ events, (Backend.mock table).run root turn = .ok events ∧
      List.Forall₂ (table.Answers turn) (root.steps.filter (·.children.isEmpty)) events ∧
      ((∃ compilation, compileChecked (.mock table) root config = .ok compilation) ↔
        (config.contractMode = .strict → Diagnostic.errors (check root) = [])) ∧
      ∀ compilation, compileChecked (.mock table) root config = .ok compilation →
        let class? (event : Event) := (inferVisibility root .filtered).get? event.author
        let shown := (compilation.eventFilter config).applyAll events
        compilation.artifact = root ∧ (∀ event ∈ events, (class? event).isSome) ∧
          match config.visibility with
          | .filtered => shown = events.filter fun event => class? event = some .user
          | .annotate => shown = events.map fun event => { event with visibility := class? event }
          | .transparent => shown = events := by
  refine ⟨Replay.events table turn.invocation root, rfl, Replay.answers_events table turn root,
    exists_compilation_iff, ?_⟩
  intro compilation compiled class? shown
  obtain ⟨-, rfl⟩ := compileChecked_eq_ok_iff.1 compiled
  refine ⟨rfl, fun event mem => ?_, ?_⟩
  · obtain ⟨shown, known, -⟩ := exists_classify_eq mem .filtered .filtered
    exact Option.isSome_iff_exists.2 ⟨shown, known⟩
  · unfold shown Compilation.eventFilter
    cases config.visibility with
    | filtered => exact applyAll_events_filtered
    | annotate => exact applyAll_events_annotate
    | transparent => exact EventFilter.applyAll_transparent

end

end Workflow
