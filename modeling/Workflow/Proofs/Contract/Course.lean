import Workflow.Proofs.Contract.Reaching

/-! The courses that a value may take through a run. Forward paths leave out that the body of a loop
runs again or is left at a checkpoint, that nothing may run inside of a step, and what a loop tests;
the rest of a course is part of a forward path. -/
namespace Workflow.Liveness

/-- What happens on a course. -/
inductive Stop where
  /-- Something that happens on forward paths, too. -/
  | moment (moment : Moment)
  /-- A loop looks at its exit predicate at the end of a round. -/
  | tests (exit : Option Predicate)
  /-- The body of a loop begins again. -/
  | repeats
  /-- No arm of a route runs, or the body of a loop does not. -/
  | skips
  /-- The predicate of a checkpoint holds, and the loop around it ends. -/
  | leaves

/-- How a course through a step ends. -/
inductive Ending where
  | goesOn
  /-- The value does not get out of the step. -/
  | stays
  /-- The course goes on after the loop around the step. -/
  | leaves
deriving DecidableEq

/-- Courses, each with its ending. -/
abbrev Courses := List Stop → Ending → Prop

namespace Courses

/-- The one course with the given stops. -/
def only (stops : List Stop) : Courses := fun course ending => course = stops ∧ ending = .goesOn

/-- A course that does not go on, or one that does with another one after it. -/
def andThen (first second : Courses) : Courses := fun course ending =>
  (first course ending ∧ ending ≠ .goesOn) ∨
    ∃ before after, course = before ++ after ∧ first before .goesOn ∧ second after ending

def either (first second : Courses) : Courses := fun course ending =>
  first course ending ∨ second course ending

/-- The same courses with another ending in place of one. -/
def turning (ending other : Ending) (courses : Courses) : Courses := fun course last =>
  last ≠ ending ∧ (courses course last ∨ last = other ∧ courses course ending)

def leave : Courses := fun course ending => course = [.leaves] ∧ ending = .leaves

def inTurn : List Courses → Courses
  | [] => only []
  | first :: rest => first.andThen (inTurn rest)

/-- The courses through one of some steps, or past them if there are none. -/
def oneOf (all : List Courses) : Courses := fun course ending =>
  (all = [] ∧ only [] course ending) ∨ ∃ courses ∈ all, courses course ending

/-- The courses through at least one round and at most as many as the bound says. -/
def rounds (round : Courses) : Nat → Courses
  | 0 => only [.skips]
  | 1 => round
  | bound + 2 =>
    round.either (round.andThen ((only [.repeats]).andThen (rounds round (bound + 1))))

/-- The steps below, each with its place. -/
def placed (place : Place) (parts : List (Place → Courses)) : List Courses :=
  parts.zipIdx.map fun (part, i) => part (place ++ [i])

/-- What happens below a step, or its own writes. A value that enters the body of a step that runs
it once per item stays with the item. -/
def inside (place : Place) (step : Node) : Kind (Place → Courses) → Courses
  | .sequence parts => inTurn (placed place parts)
  | .parallel parts | .fallback parts | .race parts => oneOf (placed place parts)
  | .route key rules otherwise =>
    let arms := oneOf (placed place (Kind.route key rules otherwise).children)
    if otherwise.isNone then arms.either (only [.skips]) else arms
  | .loop body bound exit =>
    (rounds ((body (place ++ [0])).andThen (only [.tests exit])) bound.toNat).turning .leaves .goesOn
  | .timeout body _ => body (place ++ [0])
  | .mapOver body .. =>
    (only [.moment (.writes place step)]).either
      (((body (place ++ [0])).andThen (only [.moment (.collects place)])).turning .goesOn .stays)
  | .tap (.checkpoint _) =>
    (only [.moment (.writes place step)]).either
      ((only [.moment (.writes place step)]).andThen leave)
  | .leaf _ | .transform _ | .tap (.log _) | .gate .. | .transfer .. | .capture _ =>
    only [.moment (.writes place step)]

end Courses

/-- The courses through a step at a place. -/
def courses (step : Node) : Place → Courses :=
  step.fold fun step below place =>
    (Courses.only [.moment (.asks place step)]).andThen (Courses.inside place step below)

theorem courses_eq (step : Node) (place : Place) :
    courses step place =
      (Courses.only [.moment (.asks place step)]).andThen
        (Courses.inside place step (step.kind.map courses)) := by
  rw [courses, Tree.fold_eq]
  rfl

/-- What forward paths have of a course. -/
def strip (course : List Stop) : List Moment :=
  course.filterMap fun
    | .moment moment => some moment
    | .tests _ | .repeats | .skips | .leaves => none

@[simp] theorem strip_nil : strip [] = [] := rfl

@[simp] theorem strip_append (course after : List Stop) :
    strip (course ++ after) = strip course ++ strip after :=
  List.filterMap_append

@[simp] theorem strip_moment (moment : Moment) (course : List Stop) :
    strip (.moment moment :: course) = moment :: strip course := rfl

/-- Nothing happens that forward paths leave out, except for tests. -/
def Straight (course : List Stop) : Prop :=
  .repeats ∉ course ∧ .skips ∉ course ∧ .leaves ∉ course

@[simp] theorem straight_append {course after : List Stop} :
    Straight (course ++ after) ↔ Straight course ∧ Straight after := by
  simp only [Straight, List.mem_append]
  tauto

/-- Every straight part of a course is part of a path, and begins or ends it if it begins or ends
the course. A course that leaves a loop does so with its last stop. -/
structure Mirrors (courses : Courses) (paths : Paths) : Prop where
  parts : ∀ before between after ending, courses (before ++ (between ++ after)) ending →
    Straight between → ∃ start rest goes, paths (start ++ (strip between ++ rest)) goes ∧
      (before = [] → start = []) ∧
        (after = [] → ending ≠ .leaves → rest = [] ∧ goes = decide (ending = .goesOn))
  last : ∀ course, courses course .leaves → ∃ start, course = start ++ [.leaves]

section

variable {first second courses : Courses} {paths others : Paths}

theorem mirrors_only (stops : List Stop) : Mirrors (.only stops) (.only (strip stops)) where
  parts := by
    intro before between after ending h straight
    obtain ⟨rfl, rfl⟩ := h
    exact ⟨strip before, strip after, true, ⟨by simp, rfl⟩, fun h => by simp [h],
      fun h _ => by simp [h]⟩
  last := by
    intro course h
    obtain ⟨-, h⟩ := h
    exact Ending.noConfusion h

theorem mirrors_either (h : Mirrors first paths) (h' : Mirrors second paths) :
    Mirrors (first.either second) paths where
  parts := by
    intro before between after ending found straight
    rcases found with found | found
    · exact h.parts before between after ending found straight
    · exact h'.parts before between after ending found straight
  last course found := found.elim (h.last course) (h'.last course)

/-- Every course is mirrored by a path that goes on if the course does. -/
theorem Mirrors.whole (h : Mirrors courses paths) {course : List Stop} {ending : Ending}
    (found : courses course ending) :
    ∃ path goes, paths path goes ∧ (course = [] → path = []) ∧
      (ending ≠ .leaves → goes = decide (ending = .goesOn)) := by
  obtain ⟨start, rest, goes, path, begins, ends⟩ := h.parts course [] [] ending
    (by simpa using found) (by simp [Straight])
  refine ⟨start ++ rest, goes, by simpa using path, fun empty => ?_, fun out => (ends rfl out).2⟩
  by_cases out : ending = .leaves
  · obtain ⟨start, eq⟩ := h.last course (out ▸ found)
    simp [empty] at eq
  · simp [begins empty, (ends rfl out).1]

theorem mirrors_andThen (h : Mirrors first paths) (h' : Mirrors second others)
    (goes : ∃ path, others path true) :
    Mirrors (first.andThen second) (paths.andThen others) where
  parts := by
    intro before between after ending found straight
    rcases found with ⟨ended, ne⟩ | ⟨course, more, eq, through, onward⟩
    · obtain ⟨start, rest, goes_, path, begins, ends⟩ :=
        h.parts before between after ending ended straight
      cases goes_ with
      | false => exact ⟨start, rest, false, .inl ⟨path, rfl⟩, begins, ends⟩
      | true =>
        obtain ⟨way, h⟩ := goes
        refine ⟨start, rest ++ way, true, .inr ⟨_, way, ?_, path, h⟩, begins, fun last out => ?_⟩
        · simp
        · simpa [ne] using (ends last out).2
    -- The straight part may lie after the boundary, before it, or across it.
    rcases List.append_eq_append_iff.1 eq with ⟨gap, rfl, cut⟩ | ⟨gap, rfl, rfl⟩
    · rcases List.append_eq_append_iff.1 cut with ⟨gap, rfl, rfl⟩ | ⟨part, rfl, rfl⟩
      · obtain ⟨start, rest, goes, path, begins, ends⟩ :=
          h.parts before between gap .goesOn through straight
        obtain ⟨way, on, onward, begun, same⟩ := h'.whole onward
        cases goes with
        | false =>
          refine ⟨start, rest, false, .inl ⟨path, rfl⟩, begins, fun last _ => ?_⟩
          simpa using (ends (List.append_eq_nil_iff.1 last).1 Ending.noConfusion).2
        | true =>
          refine ⟨start, rest ++ way, on, .inr ⟨_, way, ?_, path, onward⟩, begins,
            fun last out => ⟨?_, same out⟩⟩
          · simp
          · obtain ⟨rfl, rfl⟩ := List.append_eq_nil_iff.1 last
            simp [(ends rfl Ending.noConfusion).1, begun rfl]
      · obtain ⟨straight, straight'⟩ := straight_append.1 straight
        obtain ⟨start, none, goes, path, begins, ends⟩ :=
          h.parts before gap [] .goesOn (by simpa using through) straight
        obtain ⟨rfl, rfl⟩ := ends rfl Ending.noConfusion
        obtain ⟨none, rest, goes, onward, begun, ends⟩ :=
          h'.parts [] part after ending onward straight'
        obtain rfl := begun rfl
        refine ⟨start, rest, goes, .inr ⟨_, _, ?_, path, onward⟩, begins, ends⟩
        simp
    · obtain ⟨way, _, path, begins, same⟩ := h.whole through
      obtain rfl := same Ending.noConfusion
      obtain ⟨start, rest, goes, onward, begun, ends⟩ :=
        h'.parts gap between after ending onward straight
      refine ⟨way ++ start, rest, goes, .inr ⟨way, _, ?_, path, onward⟩, fun first => ?_, ends⟩
      · simp
      · obtain ⟨rfl, rfl⟩ := List.append_eq_nil_iff.1 first
        simp [begins rfl, begun rfl]
  last := by
    intro course found
    rcases found with ⟨found, -⟩ | ⟨before, after, rfl, -, found⟩
    · exact h.last course found
    · obtain ⟨start, rfl⟩ := h'.last after found
      exact ⟨before ++ start, by simp⟩

/-- A course with nothing but a stop that forward paths leave out is mirrored by the ends of any
path. -/
theorem mirrors_stop {stop : Stop} {ending : Ending} (crooked : ¬ Straight [stop])
    (out : ending ≠ .stays) (left : ending = .leaves → stop = .leaves)
    (goes : ∃ path, paths path true) :
    Mirrors (fun course last => course = [stop] ∧ last = ending) paths where
  parts := by
    intro before between after last h straight
    obtain ⟨path, h'⟩ := goes
    obtain ⟨eq, rfl⟩ := h
    cases between with
    | cons other more =>
      have mem : stop ∈ other :: more := by
        cases before <;> simp_all
      exact absurd ⟨fun h => straight.1 (List.mem_singleton.1 h ▸ mem),
        fun h => straight.2.1 (List.mem_singleton.1 h ▸ mem),
        fun h => straight.2.2 (List.mem_singleton.1 h ▸ mem)⟩ crooked
    | nil =>
      cases before with
      | nil =>
        exact ⟨[], path, true, by simpa using h', fun _ => rfl, fun last => by simp [last] at eq⟩
      | cons stop more =>
        refine ⟨path, [], true, by simpa using h', nofun, fun _ leaves => ⟨rfl, ?_⟩⟩
        cases last with
        | goesOn => rfl
        | stays => exact absurd rfl out
        | leaves => exact absurd rfl leaves
  last := by
    intro course h
    obtain ⟨rfl, eq⟩ := h
    exact ⟨[], by rw [left eq.symm]; rfl⟩

theorem mirrors_oneOf_of {all : List Courses} (empty : all = [] → Mirrors (.only []) paths)
    (h : ∀ courses ∈ all, Mirrors courses paths) : Mirrors (.oneOf all) paths where
  parts := by
    intro before between after ending found straight
    rcases found with ⟨none, found⟩ | ⟨courses, mem, found⟩
    · exact (empty none).parts before between after ending found straight
    · exact (h courses mem).parts before between after ending found straight
  last := by
    intro course found
    rcases found with ⟨none, found⟩ | ⟨courses, mem, found⟩
    · exact (empty none).last course found
    · exact (h courses mem).last course found

/-- A list without the separator lies on one side of it. -/
private theorem apart_of_append_eq {α : Type} {before between after left right : List α}
    {separator : α} (h : before ++ (between ++ after) = left ++ separator :: right)
    (apart : separator ∉ between) :
    (∃ gap, left = before ++ (between ++ gap) ∧ after = gap ++ separator :: right) ∨
      ∃ gap, before = left ++ separator :: gap ∧ right = gap ++ (between ++ after) := by
  rcases List.append_eq_append_iff.1 h with ⟨gap, rfl, cut⟩ | ⟨gap, rfl, cut⟩
  · rcases List.append_eq_append_iff.1 cut with ⟨gap, rfl, rfl⟩ | ⟨part, rfl, last⟩
    · exact .inl ⟨gap, rfl, rfl⟩
    · cases part with
      | nil => exact .inl ⟨[], by simp, last.symm⟩
      | cons stop more =>
        obtain ⟨rfl, -⟩ := List.cons.inj last
        simp at apart
  · cases gap with
    | cons stop gap =>
      obtain ⟨rfl, rfl⟩ := List.cons.inj cut
      exact .inr ⟨gap, rfl, rfl⟩
    | nil =>
      cases between with
      | nil => exact .inl ⟨[], by simp, cut.symm⟩
      | cons stop more =>
        obtain ⟨rfl, -⟩ := List.cons.inj cut
        simp at apart

/-- A straight part does not reach from one round into the next. -/
theorem mirrors_again (h : Mirrors first paths) (h' : Mirrors second paths) :
    Mirrors (first.andThen ((Courses.only [.repeats]).andThen second)) paths where
  parts := by
    intro before between after ending found straight
    rcases found with ⟨ended, -⟩ |
      ⟨course, _, eq, through, ⟨⟨-, on⟩, ne⟩ | ⟨_, onward, rfl, ⟨rfl, -⟩, next⟩⟩
    · exact h.parts before between after ending ended straight
    · exact absurd on ne
    rcases apart_of_append_eq eq straight.1 with ⟨gap, rfl, rfl⟩ | ⟨gap, rfl, rfl⟩
    · obtain ⟨start, rest, goes, path, begins, -⟩ :=
        h.parts before between gap .goesOn through straight
      exact ⟨start, rest, goes, path, begins, by simp⟩
    · obtain ⟨start, rest, goes, path, -, ends⟩ := h'.parts gap between after ending next straight
      exact ⟨start, rest, goes, path, by simp, ends⟩
  last := by
    intro course found
    rcases found with ⟨found, -⟩ |
      ⟨before, _, rfl, -, ⟨⟨-, on⟩, ne⟩ | ⟨again, after, rfl, -, found⟩⟩
    · exact h.last course found
    · exact absurd on ne
    · obtain ⟨start, rfl⟩ := h'.last after found
      exact ⟨before ++ (again ++ start), by simp⟩

theorem mirrors_rounds (h : Mirrors first paths) (goes : ∃ path, paths path true) (bound : Nat) :
    Mirrors (first.rounds bound) paths := by
  induction bound using Courses.rounds.induct with
  | case1 => exact mirrors_stop (by simp [Straight]) Ending.noConfusion Ending.noConfusion goes
  | case2 => exact h
  | case3 bound ih => exact mirrors_either h (mirrors_again h ih)

/-- A course that leaves the loop with its last stop is mirrored by any path. -/
theorem mirrors_loop (h : Mirrors courses paths) (goes : ∃ path, paths path true) :
    Mirrors (courses.turning .leaves .goesOn) paths where
  parts := by
    intro before between after ending found straight
    obtain ⟨inside, found | ⟨rfl, found⟩⟩ := found
    · exact h.parts before between after ending found straight
    rcases after.eq_nil_or_concat with rfl | ⟨more, stop, rfl⟩
    · obtain ⟨course, eq⟩ := h.last _ found
      obtain ⟨path, goes⟩ := goes
      rw [List.append_nil] at eq
      rcases between.eq_nil_or_concat with rfl | ⟨most, stop, rfl⟩
      · exact ⟨path, [], true, by simpa using goes, fun empty => by simp [empty] at eq,
          fun _ _ => ⟨rfl, rfl⟩⟩
      · rw [List.concat_eq_append, ← List.append_assoc] at eq
        obtain ⟨-, same⟩ := List.append_inj' eq rfl
        obtain rfl := List.singleton_inj.1 same
        exact absurd (by simp) straight.2.2
    · obtain ⟨start, rest, goes, path, begins, -⟩ := h.parts before between _ .leaves found straight
      exact ⟨start, rest, goes, path, begins, by simp⟩
  last course found := absurd rfl found.1

theorem mirrors_perItem (h : Mirrors courses paths) :
    Mirrors (courses.turning .goesOn .stays) fun path on => on = false ∧ ∃ any, paths path any where
  parts := by
    intro before between after ending found straight
    obtain ⟨ne, found⟩ := found
    obtain ⟨any, found, same⟩ : ∃ any, courses (before ++ (between ++ after)) any ∧
        (ending ≠ .leaves → any ≠ .leaves) := by
      rcases found with found | ⟨rfl, found⟩
      · exact ⟨ending, found, id⟩
      · exact ⟨.goesOn, found, fun _ => Ending.noConfusion⟩
    obtain ⟨start, rest, goes, path, begins, ends⟩ :=
      h.parts before between after any found straight
    refine ⟨start, rest, false, ⟨rfl, goes, path⟩, begins, fun last out => ?_⟩
    exact ⟨(ends last (same out)).1, (decide_eq_false ne).symm⟩
  last := by
    intro course found
    rcases found.2 with found | ⟨eq, -⟩
    · exact h.last course found
    · exact Ending.noConfusion eq

theorem Mirrors.mono (h : Mirrors courses paths) (sub : ∀ path on, paths path on → others path on) :
    Mirrors courses others where
  parts := by
    intro before between after ending found straight
    obtain ⟨start, rest, goes, path, begins, ends⟩ :=
      h.parts before between after ending found straight
    exact ⟨start, rest, goes, sub _ _ path, begins, ends⟩
  last := h.last

end

section

variable {place : Place}

theorem andThen_only_nil (paths : Paths) : paths.andThen (.only []) = paths := by
  funext path on
  cases on <;> simp [Paths.andThen, Paths.only]

theorem mirrors_inTurn {steps : List Node} {i : Nat}
    (h : ∀ step ∈ steps, ∀ place, Mirrors (courses step place) (Forward place step)) :
    Mirrors (.inTurn ((steps.zipIdx i).map fun (step, i) => courses step (place ++ [i])))
      (InTurn place i steps) := by
  induction steps generalizing i with
  | nil =>
    rw [inTurn_nil]
    exact mirrors_only []
  | cons step rest ih =>
    rw [inTurn_cons]
    have others := ih (i := i + 1) fun other mem => h other (List.mem_cons_of_mem step mem)
    exact mirrors_andThen (h step List.mem_cons_self _) others (exists_inTurn place (i + 1) rest)

theorem placed_map (place : Place) (steps : List Node) :
    Courses.placed place (steps.map courses) =
      steps.zipIdx.map fun (step, i) => courses step (place ++ [i]) := by
  simp [Courses.placed, List.zipIdx_map]

theorem mirrors_oneOf {steps : List Node} (nonempty : steps ≠ [])
    (h : ∀ step ∈ steps, ∀ place, Mirrors (courses step place) (Forward place step)) :
    Mirrors (.oneOf (Courses.placed place (steps.map courses))) (.oneOf place 0 steps) := by
  rw [placed_map]
  refine mirrors_oneOf_of (fun empty => ?_) fun courses mem => ?_
  · simp [nonempty] at empty
  · obtain ⟨⟨step, i⟩, at_, rfl⟩ := List.mem_map.1 mem
    have at_ : steps[i]? = some step := List.mem_zipIdx_iff_getElem?.1 at_
    refine (h step (List.mem_of_getElem? at_) (place ++ [i])).mono fun path on through => ?_
    exact ⟨i, step, at_, by rwa [Nat.zero_add]⟩

/-- A step that enters one of the steps below is mirrored by its forward paths if what happens inside
is mirrored by the paths through one of those. -/
theorem mirrors_takesOne {step : Node} {below : Courses} (one : takesOne step.kind)
    (ih : ∀ child ∈ step.children, ∀ place, Mirrors (courses child place) (Forward place child))
    (h : ∀ inner : Paths, (∃ path, inner path true) →
      Mirrors (.oneOf (Courses.placed place (step.children.map courses))) inner →
      (∀ i child, step.children[i]? = some child →
        ∀ path on, Forward (place ++ [i]) child path on → inner path on) →
      Mirrors below inner) :
    Mirrors ((Courses.only [.moment (.asks place step)]).andThen below) (Forward place step) := by
  have asks : Mirrors (.only [.moment (.asks place step)]) (.only [.asks place step]) :=
    mirrors_only _
  by_cases empty : step.children = []
  · rw [forward_empty one empty]
    refine mirrors_andThen asks (h _ ⟨[], rfl, rfl⟩ ?_ (by simp [empty])) ⟨[], rfl, rfl⟩
    exact mirrors_oneOf_of (fun _ => mirrors_only []) (by simp [Courses.placed, empty])
  · rw [forward_one one empty]
    obtain ⟨child, mem⟩ := List.exists_mem_of_ne_nil _ empty
    obtain ⟨i, at_⟩ := List.getElem?_of_mem mem
    obtain ⟨path, goes⟩ := exists_forward (place ++ [0 + i]) child
    have goes : ∃ path, Paths.oneOf place 0 step.children path true := ⟨path, i, child, at_, goes⟩
    refine mirrors_andThen asks (h _ goes (mirrors_oneOf empty ih) ?_) goes
    exact fun i child at_ path on through => ⟨i, child, at_, by rwa [Nat.zero_add]⟩

/-- Every straight part of a course through a step is part of a forward path through it. -/
theorem mirrors_courses (step : Node) (place : Place) :
    Mirrors (courses step place) (Forward place step) := by
  induction step using Tree.induction generalizing place with
  | step step ih =>
    rw [courses_eq]
    have asks : Mirrors (.only [.moment (.asks place step)]) (.only [.asks place step]) :=
      mirrors_only _
    have writes : Mirrors (.only [.moment (.writes place step)]) (.only [.writes place step]) :=
      mirrors_only _
    have children : step.children = step.kind.children := rfl
    cases kind : step.kind with
    | leaf | transform | gate | transfer | capture =>
      rw [kind] at children
      rw [forward_plain (by simp [kind, isWriter]) children]
      exact mirrors_andThen asks writes ⟨_, rfl, rfl⟩
    | tap action =>
      rw [kind] at children
      rw [forward_plain (by simp [kind, isWriter]) children]
      refine mirrors_andThen asks ?_ ⟨_, rfl, rfl⟩
      cases action with
      | log => exact writes
      | checkpoint =>
        have leave : Mirrors .leave (.only []) :=
          mirrors_stop (by simp [Straight]) Ending.noConfusion (fun _ => rfl) ⟨[], rfl, rfl⟩
        have left := mirrors_andThen writes leave ⟨[], rfl, rfl⟩
        rw [andThen_only_nil] at left
        exact mirrors_either writes left
    | sequence steps =>
      rw [Tree.children_of_sequence kind] at ih
      rw [forward_sequence kind]
      refine mirrors_andThen asks ?_ (exists_inTurn place 0 steps)
      have turns : Mirrors (.inTurn _) (InTurn place 0 steps) := mirrors_inTurn ih
      rwa [← placed_map] at turns
    | parallel | fallback | race =>
      rw [kind] at children
      refine mirrors_takesOne (by simp [kind, takesOne]) ih fun inner _ branches _ => ?_
      rwa [children] at branches
    | route key rules otherwise =>
      refine mirrors_takesOne (by simp [kind, takesOne]) ih fun inner goes branches _ => ?_
      rw [children, kind, ← Kind.children_map] at branches
      simp only [Kind.map, Courses.inside]
      split
      · exact mirrors_either branches
          (mirrors_stop (by simp [Straight]) Ending.noConfusion Ending.noConfusion goes)
      · exact branches
    | loop body bound exit =>
      rw [kind] at children
      refine mirrors_takesOne (by simp [kind, takesOne]) ih fun inner goes _ below => ?_
      have body_ := ih body (by rw [children]; exact List.mem_singleton_self body) (place ++ [0])
      have round := mirrors_andThen body_ (mirrors_only [.tests exit]) ⟨[], rfl, rfl⟩
      rw [show strip [.tests exit] = [] from rfl, andThen_only_nil] at round
      have whole := mirrors_rounds (round.mono (below 0 body (by rw [children]; rfl))) goes
      exact mirrors_loop (whole bound.toNat) goes
    | timeout body deadline =>
      rw [kind] at children
      refine mirrors_takesOne (by simp [kind, takesOne]) ih fun inner _ _ below => ?_
      have body_ := ih body (by rw [children]; exact List.mem_singleton_self body) (place ++ [0])
      exact body_.mono (below 0 body (by rw [children]; rfl))
    | mapOver body listKey itemKey outputKey =>
      rw [kind] at children
      rw [forward_perItem kind]
      have body_ := ih body (by rw [children]; exact List.mem_singleton_self body) (place ++ [0])
      have item := mirrors_perItem (mirrors_andThen body_
        (mirrors_only [.moment (.collects place)]) ⟨_, rfl, rfl⟩)
      refine mirrors_andThen asks (mirrors_either (writes.mono ?_) (item.mono ?_))
        ⟨_, .inl ⟨rfl, rfl⟩⟩
      · exact fun path on through => .inl through
      · intro path on through
        obtain ⟨rfl, any, ⟨broken, -⟩ | ⟨before, after, rfl, through, rfl, -⟩⟩ := through
        · exact .inr ⟨rfl, .inr broken⟩
        · exact .inr ⟨rfl, .inl ⟨before, rfl, through⟩⟩

end

end Workflow.Liveness
