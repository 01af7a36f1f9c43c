import Mathlib.Data.List.Basic
import Mathlib.Data.List.Induction
import Workflow.Proofs.StateOp.Splitting

/-! Branches that run at the same time. Their events come in any order that keeps the events of each
branch in turn; if no two branches write the same key, the order makes no difference to the state. -/
namespace Workflow

section Interleaved

variable {α β : Type}

/-- The list has the items of all streams, those of each stream in the order of the stream. -/
inductive Interleaved : List (List α) → List α → Prop where
  | done {streams : List (List α)} : (∀ stream ∈ streams, stream = []) → Interleaved streams []
  | next {before after : List (List α)} {item : α} {stream rest : List α} :
    Interleaved (before ++ stream :: after) rest →
    Interleaved (before ++ (item :: stream) :: after) (item :: rest)

/-- What only one of the streams has anything of stands in the list as it stands in the streams one
after the other. -/
theorem Interleaved.filterMap {streams : List (List α)} {items : List α}
    (h : Interleaved streams items) (f : α → Option β)
    (apart : streams.Pairwise fun one other => one.filterMap f = [] ∨ other.filterMap f = []) :
    items.filterMap f = streams.flatMap (List.filterMap f) := by
  induction h with
  | done exhausted =>
    refine (List.flatMap_eq_nil_iff.2 fun stream mem => ?_).symm
    rw [exhausted stream mem]
    rfl
  | @next before after item stream rest _ ih =>
    obtain ⟨first, second, between⟩ := List.pairwise_append.1 apart
    obtain ⟨behind, second⟩ := List.pairwise_cons.1 second
    cases found : f item with
    | none =>
      have same : (item :: stream).filterMap f = stream.filterMap f := by
        rw [List.filterMap_cons, found]
      rw [same] at behind
      have rests : rest.filterMap f = (before ++ stream :: after).flatMap (List.filterMap f) := by
        refine ih (List.pairwise_append.2 ⟨first, List.pairwise_cons.2 ⟨behind, second⟩, ?_⟩)
        intro one mem other among
        rcases List.mem_cons.1 among with rfl | among
        · rw [← same]
          exact between one mem _ List.mem_cons_self
        · exact between one mem other (List.mem_cons_of_mem _ among)
      rw [List.filterMap_cons, found]
      simpa only [List.flatMap_append, List.flatMap_cons, same] using rests
    | some value =>
      -- The item is of the one stream that has something, so that the others have nothing.
      have own : (item :: stream).filterMap f = value :: stream.filterMap f := by
        rw [List.filterMap_cons, found]
      have earlier : ∀ one ∈ before, one.filterMap f = [] := fun one mem =>
        (between one mem _ List.mem_cons_self).resolve_right (by simp [own])
      have later : ∀ other ∈ after, other.filterMap f = [] := fun other mem =>
        (behind other mem).resolve_left (by simp [own])
      have rests : rest.filterMap f = (before ++ stream :: after).flatMap (List.filterMap f) := by
        refine ih (List.pairwise_append.2 ⟨first, List.pairwise_cons.2 ⟨?_, second⟩, ?_⟩)
        · exact fun other mem => .inr (later other mem)
        · exact fun one mem other _ => .inl (earlier one mem)
      rw [List.filterMap_cons, found]
      simp only [List.flatMap_append, List.flatMap_cons, own, List.flatMap_eq_nil_iff.2 earlier,
        List.nil_append, List.cons_append, rests]

end Interleaved

/-- What events write to a key, in their order; null removes the key. -/
def writesTo (key : String) (events : List Event) : List Json :=
  events.filterMap fun event => event.actions.stateDelta.get? key

/-- No two streams write the same key. -/
def WriteApart (streams : List (List Event)) : Prop :=
  streams.Pairwise fun one other => ∀ event ∈ one, ∀ next ∈ other,
    ∀ key ∈ event.actions.stateDelta.keys, key ∉ next.actions.stateDelta.keys

/-- Where nothing was before, there is afterwards what was written, unless that was null. -/
theorem State.changed_none_eq_some {last : Option Json} {value : Json} :
    State.changed none last = some value ↔ last = some value ∧ value ≠ .null := by
  cases last with
  | none => simp [changed]
  | some last =>
    by_cases null : last = .null
    · subst null
      have removed : State.changed none (some .null) = none := rfl
      rw [removed]
      constructor
      · intro found
        exact absurd found (by simp)
      · rintro ⟨eq, held⟩
        exact absurd (Option.some.inj eq).symm held
    · have kept : State.changed none (some last) = some last := by
        rw [changed, if_neg fun isNull => null (Json.isNull_iff.1 isNull)]
      rw [kept]
      exact ⟨fun eq => ⟨eq, Option.some.inj eq ▸ null⟩, fun both => both.1⟩

theorem writesTo_append (key : String) (first second : List Event) :
    writesTo key (first ++ second) = writesTo key first ++ writesTo key second :=
  List.filterMap_append

/-- Only the last write to a key counts, whatever else the events do. -/
theorem get?_mergedState (events : List Event) (key : String) :
    (mergedState events).get? key = State.changed none (writesTo key events).getLast? := by
  induction events using List.reverseRecOn with
  | nil => rfl
  | append_singleton events event ih =>
    rw [mergedState_append_singleton, State.get?_merge, ih, writesTo_append]
    cases found : event.actions.stateDelta.get? key with
    | none =>
      have nothing : writesTo key [event] = [] := by simp [writesTo, found]
      rw [nothing, List.append_nil]
      rfl
    | some value =>
      have own : writesTo key [event] = [value] := by simp [writesTo, found]
      rw [own, List.getLast?_append]
      rfl

theorem WriteApart.writesTo {streams : List (List Event)} (h : WriteApart streams) (key : String) :
    streams.Pairwise fun one other => writesTo key one = [] ∨ writesTo key other = [] := by
  refine h.imp fun {one other} apart => ?_
  by_contra both
  obtain ⟨writes, also⟩ := not_or.1 both
  obtain ⟨value, mem⟩ := List.exists_mem_of_ne_nil _ writes
  obtain ⟨last, among⟩ := List.exists_mem_of_ne_nil _ also
  obtain ⟨event, first, found⟩ := List.mem_filterMap.1 mem
  obtain ⟨next, second, holds⟩ := List.mem_filterMap.1 among
  exact apart event first next second key (KeySet.mem_ofList.2 (KeyMap.mem_keys.2 ⟨value, found⟩))
    (KeySet.mem_ofList.2 (KeyMap.mem_keys.2 ⟨last, holds⟩))

theorem writesTo_interleaved {streams : List (List Event)} {events : List Event}
    (apart : WriteApart streams) (h : Interleaved streams events) (key : String) :
    writesTo key events = streams.flatMap (writesTo key) :=
  h.filterMap _ (apart.writesTo key)

/-- However the events of streams that write apart come after earlier ones, they lead to one state.
Nothing in it is null, and a key holds what was written to it last, or nothing if that was null or
if there was no write. The last write is the last one of the stream that writes the key at all. -/
theorem mergedState_interleaved {streams : List (List Event)} (apart : WriteApart streams)
    (earlier : List Event) {one other : List Event} (first : Interleaved streams one)
    (second : Interleaved streams other) :
    mergedState (earlier ++ one) = mergedState (earlier ++ other) ∧
      (mergedState (earlier ++ one)).NullFree ∧
      (∀ key value, (mergedState (earlier ++ one)).get? key = some value ↔
        (writesTo key (earlier ++ one)).getLast? = some value ∧ value ≠ .null) ∧
      ∀ key, ∀ stream ∈ streams, writesTo key stream ≠ [] →
        (writesTo key (earlier ++ one)).getLast? = (writesTo key stream).getLast? := by
  have writes (key : String) : writesTo key one = streams.flatMap (writesTo key) :=
    writesTo_interleaved apart first key
  refine ⟨KeyMap.ext_get? fun key => ?_, nullFree_mergedState _, fun key value => ?_,
    fun key stream mem any => ?_⟩
  · have same : writesTo key one = writesTo key other :=
      (writes key).trans (writesTo_interleaved apart second key).symm
    rw [get?_mergedState, get?_mergedState, writesTo_append, writesTo_append, same]
  · rw [get?_mergedState, State.changed_none_eq_some]
  · obtain ⟨before, after, rfl⟩ := List.append_of_mem mem
    obtain ⟨-, behind, between⟩ := List.pairwise_append.1 (apart.writesTo key)
    have earlierNone : before.flatMap (writesTo key) = [] := List.flatMap_eq_nil_iff.2 fun one mem =>
      (between one mem _ List.mem_cons_self).resolve_right any
    have laterNone : after.flatMap (writesTo key) = [] := List.flatMap_eq_nil_iff.2 fun other mem =>
      ((List.pairwise_cons.1 behind).1 other mem).resolve_left any
    have own : writesTo key one = writesTo key stream := by
      rw [writes, List.flatMap_append, List.flatMap_cons, earlierNone, laterNone]
      simp
    rw [writesTo_append, own, List.getLast?_append_of_ne_nil _ any]

section Research

/-- One branch finds something and drops it again. -/
def findEvent : Event := .state "search" (KeyMap.empty.insert "found" (.bool true))

def dropEvent : Event := .state "search" (KeyMap.empty.insert "found" .null)

/-- The other branch writes a draft. -/
def draftEvent : Event := .state "write" (KeyMap.empty.insert "draft" (.string "v1"))

theorem mergedState_interleaved_research :
    WriteApart [[findEvent, dropEvent], [draftEvent]] ∧
      Interleaved [[findEvent, dropEvent], [draftEvent]] [findEvent, dropEvent, draftEvent] ∧
      Interleaved [[findEvent, dropEvent], [draftEvent]] [draftEvent, findEvent, dropEvent] ∧
      mergedState ([dropEvent] ++ [findEvent, dropEvent, draftEvent]) =
        mergedState ([dropEvent] ++ [draftEvent, findEvent, dropEvent]) ∧
      (mergedState ([dropEvent] ++ [findEvent, dropEvent, draftEvent])).get? "draft" =
        some (.string "v1") ∧
      (mergedState ([dropEvent] ++ [findEvent, dropEvent, draftEvent])).get? "found" = none := by
  have apart : WriteApart [[findEvent, dropEvent], [draftEvent]] := by
    unfold WriteApart
    decide
  have done : Interleaved [[], []] ([] : List Event) := .done (by simp)
  have first : Interleaved [[findEvent, dropEvent], [draftEvent]]
      [findEvent, dropEvent, draftEvent] :=
    @Interleaved.next _ [] _ _ _ _ (@Interleaved.next _ [] _ _ _ _
      (@Interleaved.next _ [[]] _ _ _ _ done))
  have second : Interleaved [[findEvent, dropEvent], [draftEvent]]
      [draftEvent, findEvent, dropEvent] :=
    @Interleaved.next _ [[findEvent, dropEvent]] _ _ _ _ (@Interleaved.next _ [] _ _ _ _
      (@Interleaved.next _ [] _ _ _ _ done))
  obtain ⟨same, -, holds, -⟩ := mergedState_interleaved apart [dropEvent] first second
  refine ⟨apart, first, second, same, (holds _ _).2 ⟨rfl, by simp⟩, ?_⟩
  refine Option.eq_none_iff_forall_ne_some.2 fun value found => ?_
  obtain ⟨last, held⟩ := (holds _ value).1 found
  have null : Json.null = value := Option.some.inj last
  exact held null.symm

end Research

end Workflow
