import Workflow.Proofs.Contract.ForwardPath

/-! What reaches the end of forward paths, composed from what reaches the end of their parts. -/
namespace Workflow.Liveness

/-- Paths, and for each whether it goes on. -/
abbrev Paths := List Moment → Bool → Prop

namespace Paths

/-- The one path with the given moments. -/
def only (moments : List Moment) : Paths := fun path on => path = moments ∧ on = true

/-- A path that breaks off, or one that goes on with another one after it. -/
def andThen (first second : Paths) : Paths := fun path on =>
  (first path false ∧ on = false) ∨
    ∃ before after, path = before ++ after ∧ first before true ∧ second after on

/-- The paths through one of some steps. -/
def oneOf (place : Place) (i : Nat) (steps : List Node) : Paths := fun path on =>
  ∃ j step, steps[j]? = some step ∧ Forward (place ++ [i + j]) step path on

/-- The paths into a body, which break off at its end at the latest, and the one past it. -/
def perItem (place : Place) (step : Node) (body : Paths) : Paths := fun path on =>
  only [.writes place step] path on ∨
    on = false ∧ ((∃ inner, path = inner ++ [.collects place] ∧ body inner true) ∨ body path false)

end Paths

/-- Whose values may still be there under each key, and whose values have been used. -/
@[ext] structure View where
  live : Place → String → Prop
  used : Place → Prop

/-- What is live at the end of some path, and used on any path. -/
def View.after (view : View) (paths : Paths) : View where
  live place key := ∃ path, paths path true ∧
    (view.live place key ∧ Spares key path ∨ Leaves place key path)
  used place := view.used place ∨ ∃ path on, paths path on ∧
    (Used place path ∨ ∃ key, view.live place key ∧ Uses place key path)

section

variable {view : View} {place : Place} {step : Node}

theorem after_asks :
    view.after (.only [.asks place step]) =
      { view with used := fun q => view.used q ∨ ∃ key ∈ step.demand, view.live q key } := by
  ext q key
  · simp [View.after, Paths.only, Moment.Overwrites]
  · simp [View.after, Paths.only, Moment.Uses, and_comm]

theorem after_writes :
    view.after (.only [.writes place step]) =
      { view with
        live := fun q key => if key ∈ step.writes then q = place else view.live q key } := by
  ext q key
  · by_cases mem : key ∈ step.writes <;>
      simp [View.after, Paths.only, Moment.Overwrites, mem, eq_comm]
  · simp [View.after, Paths.only, Moment.Uses]

theorem after_only_nil : view.after (.only []) = view := by
  ext q key <;> simp [View.after, Paths.only]

/-- Paths act one after another, if there are any that go on. -/
theorem after_andThen {first second : Paths} (hf : ∃ path, first path true)
    (hs : ∃ path, second path true) :
    view.after (first.andThen second) = (view.after first).after second := by
  -- A path through one half only becomes one through both with these.
  obtain ⟨⟨way, goes⟩, ⟨rest, ends⟩⟩ := And.intro hf hs
  ext q key
  · constructor
    · intro found
      rcases found with ⟨path, ⟨-, absurd_⟩ | ⟨before, after, rfl, hb, ha⟩, effect⟩
      · simp at absurd_
      · refine ⟨after, ha, ?_⟩
        rw [spares_append, leaves_append] at effect
        rcases effect with ⟨live, kept, spares⟩ | leaves | ⟨leaves, spares⟩
        · exact .inl ⟨⟨before, hb, .inl ⟨live, kept⟩⟩, spares⟩
        · exact .inr leaves
        · exact .inl ⟨⟨before, hb, .inr leaves⟩, spares⟩
    · intro found
      rcases found with ⟨after, ha, ⟨⟨before, hb, effect⟩, spares⟩ | leaves⟩
      · refine ⟨before ++ after, .inr ⟨before, after, rfl, hb, ha⟩, ?_⟩
        rw [spares_append, leaves_append]
        rcases effect with ⟨live, kept⟩ | leaves
        · exact .inl ⟨live, kept, spares⟩
        · exact .inr (.inr ⟨leaves, spares⟩)
      · refine ⟨way ++ after, .inr ⟨way, after, rfl, goes, ha⟩, .inr ?_⟩
        exact leaves_append.2 (.inl leaves)
  · constructor
    · intro found
      rcases found with used | ⟨path, on, ⟨broken, -⟩ | ⟨before, after, rfl, hb, ha⟩, effect⟩
      · exact .inl (.inl used)
      · exact .inl (.inr ⟨path, false, broken, effect⟩)
      · simp only [used_append, uses_append] at effect
        rcases effect with (used | used | ⟨key, leaves, uses⟩) | ⟨key, live, uses | ⟨spares, uses⟩⟩
        · exact .inl (.inr ⟨before, true, hb, .inl used⟩)
        · exact .inr ⟨after, on, ha, .inl used⟩
        · exact .inr ⟨after, on, ha, .inr ⟨key, ⟨before, hb, .inr leaves⟩, uses⟩⟩
        · exact .inl (.inr ⟨before, true, hb, .inr ⟨key, live, uses⟩⟩)
        · exact .inr ⟨after, on, ha, .inr ⟨key, ⟨before, hb, .inl ⟨live, spares⟩⟩, uses⟩⟩
    · intro found
      rcases found with (used | ⟨path, on, h, effect⟩) | ⟨path, on, h, effect⟩
      · exact .inl used
      · cases on with
        | false => exact .inr ⟨path, false, .inl ⟨h, rfl⟩, effect⟩
        | true =>
          refine .inr ⟨path ++ rest, true, .inr ⟨path, rest, rfl, h, ends⟩, ?_⟩
          rcases effect with used | ⟨key, live, uses⟩
          · exact .inl (used_append.2 (.inl used))
          · exact .inr ⟨key, live, uses_append.2 (.inl uses)⟩
      · rcases effect with used | ⟨key, ⟨before, hb, ⟨live, spares⟩ | leaves⟩, uses⟩
        · exact .inr ⟨way ++ path, on, .inr ⟨way, path, rfl, goes, h⟩,
            .inl (used_append.2 (.inr (.inl used)))⟩
        · exact .inr ⟨before ++ path, on, .inr ⟨before, path, rfl, hb, h⟩,
            .inr ⟨key, live, uses_append.2 (.inr ⟨spares, uses⟩)⟩⟩
        · exact .inr ⟨before ++ path, on, .inr ⟨before, path, rfl, hb, h⟩,
            .inl (used_append.2 (.inr (.inr ⟨key, leaves, uses⟩)))⟩

/-- On the way into the body everything that its paths leave is collected, if it comes from the
body. -/
def View.collected (view : View) (place : Place) (body : Paths) : View where
  live := view.live
  used q := (view.after body).used q ∨
    (∃ i rest, q = place ++ i :: rest) ∧ ∃ key, (view.after body).live q key

/-- On the way past the body only the step itself writes. -/
theorem after_perItem {body : Paths} :
    view.after (.perItem place step body) =
      (view.collected place body).after (.only [.writes place step]) := by
  rw [after_writes]
  ext q key
  · have past : (view.after (.perItem place step body)).live q key ↔
        (view.after (.only [.writes place step])).live q key := by
      simp [View.after, Paths.perItem, Paths.only]
    rw [past, after_writes]
    rfl
  · constructor
    · intro found
      rcases found with used | ⟨path, on, ⟨rfl, rfl⟩ | ⟨rfl, ⟨inner, rfl, h⟩ | h⟩, effect⟩
      · exact .inl (.inl used)
      · simp [Moment.Uses] at effect
      · simp only [used_append, uses_append, used_cons, uses_cons, not_used_nil, not_uses_nil,
          Moment.Uses, reduceCtorEq, exists_false, and_false, or_false, false_or] at effect
        rcases effect with (used | ⟨key, leaves, under⟩) | ⟨key, live, uses | ⟨spares, under⟩⟩
        · exact .inl (.inr ⟨inner, true, h, .inl used⟩)
        · exact .inr ⟨under, key, inner, h, .inr leaves⟩
        · exact .inl (.inr ⟨inner, true, h, .inr ⟨key, live, uses⟩⟩)
        · exact .inr ⟨under, key, inner, h, .inl ⟨live, spares⟩⟩
      · exact .inl (.inr ⟨path, false, h, effect⟩)
    · intro found
      rcases found with (used | ⟨path, on, h, effect⟩) | ⟨under, key, inner, h, effect⟩
      · exact .inl used
      · cases on with
        | false => exact .inr ⟨path, false, .inr ⟨rfl, .inr h⟩, effect⟩
        | true =>
          refine .inr ⟨path ++ [.collects place], false, .inr ⟨rfl, .inl ⟨path, rfl, h⟩⟩, ?_⟩
          rcases effect with used | ⟨key, live, uses⟩
          · exact .inl (used_append.2 (.inl used))
          · exact .inr ⟨key, live, uses_append.2 (.inl uses)⟩
      · refine .inr ⟨inner ++ [.collects place], false, .inr ⟨rfl, .inl ⟨inner, rfl, h⟩⟩, ?_⟩
        have collects : Uses q key [.collects place] := uses_cons.2 (.inl under)
        rcases effect with ⟨live, spares⟩ | leaves
        · exact .inr ⟨key, live, uses_append.2 (.inr ⟨spares, collects⟩)⟩
        · exact .inl (used_append.2 (.inr (.inr ⟨key, leaves, collects⟩)))

theorem after_oneOf_nil {i : Nat} :
    view.after (.oneOf place i []) = { view with live := fun _ _ => False } := by
  ext q key <;> simp [View.after, Paths.oneOf]

/-- One of some steps is the first one, or one of the rest that finds the same values. -/
theorem after_oneOf_cons {i : Nat} {rest : List Node} {first others : View}
    (hf : first = view.after (Forward (place ++ [i]) step))
    (ho : others = View.after { view with used := first.used } (.oneOf place (i + 1) rest)) :
    view.after (.oneOf place i (step :: rest)) =
      { live := fun q key => first.live q key ∨ others.live q key, used := others.used } := by
  subst hf ho
  have cons (path : List Moment) (on : Bool) :
      Paths.oneOf place i (step :: rest) path on ↔
        Forward (place ++ [i]) step path on ∨ Paths.oneOf place (i + 1) rest path on := by
    constructor
    · intro found
      obtain ⟨j, other, at_, h⟩ := found
      cases j with
      | zero =>
        obtain rfl : step = other := by simpa using at_
        exact .inl h
      | succ j => exact .inr ⟨j, other, at_, by rwa [Nat.add_right_comm]⟩
    · intro found
      rcases found with h | ⟨j, other, at_, h⟩
      · exact ⟨0, step, rfl, h⟩
      · exact ⟨j + 1, other, at_, by rwa [← Nat.add_assoc, Nat.add_right_comm]⟩
  ext q key
  · simp only [View.after, cons, or_and_right, exists_or]
  · simp only [View.after, cons, or_and_right, exists_or, or_assoc]

end

section

variable {place : Place} {step : Node}

theorem only_andThen {moments path : List Moment} {on : Bool} {paths : Paths} :
    (Paths.only moments).andThen paths path on ↔
      ∃ after, path = moments ++ after ∧ paths after on := by
  constructor
  · intro found
    rcases found with ⟨⟨-, absurd_⟩, -⟩ | ⟨_, after, rfl, ⟨rfl, -⟩, h⟩
    · simp at absurd_
    · exact ⟨after, rfl, h⟩
  · intro found
    obtain ⟨after, rfl, h⟩ := found
    exact .inr ⟨moments, after, rfl, ⟨rfl, rfl⟩, h⟩

theorem forward_plain (writer : isWriter step.kind) (plain : step.children = []) :
    Forward place step = (Paths.only [.asks place step]).andThen (.only [.writes place step]) := by
  funext path on
  refine propext (Iff.trans ⟨fun h => ?_, ?_⟩ only_andThen.symm)
  · cases h with
    | writer => exact ⟨_, rfl, rfl, rfl⟩
    | empty one | one one => cases kind : step.kind <;> simp_all [isWriter, takesOne]
    | sequence kind => simp [kind, isWriter] at writer
    | item kind | inner kind => simp [Tree.children, kind, Kind.children] at plain
  · intro found
    obtain ⟨after, rfl, rfl, rfl⟩ := found
    exact .writer writer

theorem forward_empty (one : takesOne step.kind) (empty : step.children = []) :
    Forward place step = (Paths.only [.asks place step]).andThen (.only []) := by
  funext path on
  refine propext (Iff.trans ⟨fun h => ?_, ?_⟩ only_andThen.symm)
  · cases h with
    | writer writer => cases kind : step.kind <;> simp_all [isWriter, takesOne]
    | empty => exact ⟨_, rfl, rfl, rfl⟩
    | one _ child => simp [empty] at child
    | sequence kind => simp [kind, takesOne] at one
    | item kind | inner kind => simp [kind, takesOne] at one
  · intro found
    obtain ⟨after, rfl, rfl, rfl⟩ := found
    exact .empty one empty

theorem forward_one (one : takesOne step.kind) (nonempty : step.children ≠ []) :
    Forward place step =
      (Paths.only [.asks place step]).andThen (.oneOf place 0 step.children) := by
  funext path on
  refine propext (Iff.trans ⟨fun h => ?_, ?_⟩ only_andThen.symm)
  · cases h with
    | writer writer => cases kind : step.kind <;> simp_all [isWriter, takesOne]
    | empty _ empty => exact absurd empty nonempty
    | @one _ _ child i _ _ _ hc h => exact ⟨_, rfl, i, child, hc, by rwa [Nat.zero_add]⟩
    | sequence kind => simp [kind, takesOne] at one
    | item kind | inner kind => simp [kind, takesOne] at one
  · intro found
    obtain ⟨after, rfl, i, child, hc, h⟩ := found
    exact .one one hc (by rwa [Nat.zero_add] at h)

theorem forward_sequence {steps : List Node} (kind : step.kind = .sequence steps) :
    Forward place step = (Paths.only [.asks place step]).andThen (InTurn place 0 steps) := by
  funext path on
  refine propext (Iff.trans ⟨fun h => ?_, ?_⟩ only_andThen.symm)
  · cases h with
    | writer writer => simp [kind, isWriter] at writer
    | empty one | one one => simp [kind, takesOne] at one
    | sequence other h =>
      obtain rfl : _ = steps := by simpa [kind] using other.symm
      exact ⟨_, rfl, h⟩
    | item other | inner other => simp [kind] at other
  · intro found
    obtain ⟨after, rfl, h⟩ := found
    exact .sequence kind h

theorem forward_perItem {body : Node} {listKey itemKey outputKey : String}
    (kind : step.kind = .mapOver body listKey itemKey outputKey) :
    Forward place step = (Paths.only [.asks place step]).andThen
      (.perItem place step (Forward (place ++ [0]) body)) := by
  funext path on
  refine propext (Iff.trans ⟨fun h => ?_, ?_⟩ only_andThen.symm)
  · cases h with
    | writer => exact ⟨_, rfl, .inl ⟨rfl, rfl⟩⟩
    | empty one | one one => simp [kind, takesOne] at one
    | sequence other => simp [kind] at other
    | @item _ _ inner _ _ _ path other h =>
      obtain rfl : inner = body := by simp_all
      exact ⟨_, rfl, .inr ⟨rfl, .inl ⟨path, rfl, h⟩⟩⟩
    | @inner _ _ inner _ _ _ path other h =>
      obtain rfl : inner = body := by simp_all
      exact ⟨_, rfl, .inr ⟨rfl, .inr h⟩⟩
  · intro found
    rcases found with ⟨after, rfl, ⟨rfl, rfl⟩ | ⟨rfl, ⟨inner, rfl, h⟩ | h⟩⟩
    · exact .writer (by simp [kind, isWriter])
    · exact .item kind h
    · exact .inner kind h

theorem inTurn_nil {i : Nat} : InTurn place i [] = Paths.only [] := by
  funext path on
  refine propext ⟨fun h => ?_, ?_⟩
  · cases h
    exact ⟨rfl, rfl⟩
  · intro found
    obtain ⟨rfl, rfl⟩ := found
    exact .done

theorem inTurn_cons {i : Nat} {rest : List Node} :
    InTurn place i (step :: rest) =
      Paths.andThen (Forward (place ++ [i]) step) (InTurn place (i + 1) rest) := by
  funext path on
  refine propext ⟨fun h => ?_, ?_⟩
  · cases h with
    | stop h => exact .inl ⟨h, rfl⟩
    | next h after => exact .inr ⟨_, _, rfl, h, after⟩
  · intro found
    rcases found with ⟨h, rfl⟩ | ⟨before, after, rfl, h, rest⟩
    · exact .stop h
    · exact .next h rest

private theorem exists_inTurn_of {steps : List Node}
    (h : ∀ step ∈ steps, ∀ place, ∃ path, Forward place step path true) (place : Place) (i : Nat) :
    ∃ path, InTurn place i steps path true := by
  induction steps generalizing i with
  | nil => exact ⟨[], .done⟩
  | cons step rest ih =>
    obtain ⟨first, goes⟩ := h step List.mem_cons_self (place ++ [i])
    obtain ⟨path, after⟩ := ih (fun other mem => h other (List.mem_cons_of_mem _ mem)) (i + 1)
    exact ⟨_, .next goes after⟩

/-- Some path goes on after a step. -/
theorem exists_forward (place : Place) (step : Node) : ∃ path, Forward place step path true := by
  induction step using Tree.induction generalizing place with
  | step step ih =>
    by_cases writer : isWriter step.kind
    · exact ⟨_, .writer writer⟩
    by_cases one : takesOne step.kind
    · cases children : step.children with
      | nil => exact ⟨_, .empty one children⟩
      | cons child rest =>
        obtain ⟨path, h⟩ := ih child (by simp [children]) (place ++ [0])
        exact ⟨_, .one one (by simp [children]) h⟩
    · obtain ⟨steps, kind⟩ : ∃ steps, step.kind = .sequence steps := by
        cases kind : step.kind <;> simp_all [isWriter, takesOne]
      rw [Tree.children_of_sequence kind] at ih
      obtain ⟨path, h⟩ := exists_inTurn_of ih place 0
      exact ⟨_, .sequence kind h⟩

theorem exists_inTurn (place : Place) (i : Nat) (steps : List Node) :
    ∃ path, InTurn place i steps path true :=
  exists_inTurn_of (fun step _ place => exists_forward place step) place i

end

end Workflow.Liveness
