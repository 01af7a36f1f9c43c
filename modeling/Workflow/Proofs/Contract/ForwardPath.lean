import Workflow.Contract.Liveness
import Workflow.Proofs.Tree.Occurrence

/-! Forward paths through a tree, and what becomes of a written value on them. -/
namespace Workflow.Liveness

/-- What happens on a forward path. -/
inductive Moment where
  /-- A step begins and asks for its keys. -/
  | asks (place : Place) (step : Node)
  | writes (place : Place) (step : Node)
  /-- The results of an item are collected at the end of the body. -/
  | collects (place : Place)

namespace Moment

def Overwrites (key : String) : Moment → Prop
  | .writes _ step => key ∈ step.writes
  | .asks .. | .collects _ => False

/-- The moment uses the value that the step at the place has left under the key. -/
def Uses (place : Place) (key : String) : Moment → Prop
  | .asks _ step => key ∈ step.demand
  | .writes .. => False
  | .collects outer => ∃ i rest, place = outer ++ i :: rest

end Moment

/-- Steps of which one step below is entered, once. -/
def takesOne {α : Type} : Kind α → Bool
  | .parallel _ | .fallback _ | .race _ | .route .. | .loop .. | .timeout .. => true
  | _ => false

mutual

/-- The forward paths through a step at a place. A path goes on after the step, or breaks off with
the item of a step that runs its body once per item. -/
inductive Forward : Place → Node → List Moment → Bool → Prop where
  /-- The body of a writer, if there is one, is passed over. -/
  | writer {place : Place} {step : Node} :
      isWriter step.kind → Forward place step [.asks place step, .writes place step] true
  | empty {place : Place} {step : Node} :
      takesOne step.kind → step.children = [] → Forward place step [.asks place step] true
  | one {place : Place} {step child : Node} {i : Nat} {path : List Moment} {on : Bool} :
      takesOne step.kind → step.children[i]? = some child → Forward (place ++ [i]) child path on →
      Forward place step (.asks place step :: path) on
  | sequence {place : Place} {step : Node} {steps : List Node} {path : List Moment} {on : Bool} :
      step.kind = .sequence steps → InTurn place 0 steps path on →
      Forward place step (.asks place step :: path) on
  | item {place : Place} {step body : Node} {listKey itemKey outputKey : String}
      {path : List Moment} :
      step.kind = .mapOver body listKey itemKey outputKey → Forward (place ++ [0]) body path true →
      Forward place step (.asks place step :: (path ++ [.collects place])) false
  | inner {place : Place} {step body : Node} {listKey itemKey outputKey : String}
      {path : List Moment} :
      step.kind = .mapOver body listKey itemKey outputKey → Forward (place ++ [0]) body path false →
      Forward place step (.asks place step :: path) false

/-- The forward paths through steps that come one after another, from a position on. -/
inductive InTurn : Place → Nat → List Node → List Moment → Bool → Prop where
  | done {place : Place} {i : Nat} : InTurn place i [] [] true
  | stop {place : Place} {i : Nat} {step : Node} {rest : List Node} {path : List Moment} :
      Forward (place ++ [i]) step path false → InTurn place i (step :: rest) path false
  | next {place : Place} {i : Nat} {step : Node} {rest : List Node} {path after : List Moment}
      {on : Bool} :
      Forward (place ++ [i]) step path true → InTurn place (i + 1) rest after on →
      InTurn place i (step :: rest) (path ++ after) on

end

/-- Nothing on the path overwrites the key. -/
def Spares (key : String) (path : List Moment) : Prop :=
  ∀ moment ∈ path, ¬ moment.Overwrites key

/-- The path uses what the step at the place has left under the key, before it is overwritten. -/
def Uses (place : Place) (key : String) (path : List Moment) : Prop :=
  ∃ before moment after, path = before ++ moment :: after ∧ Spares key before ∧
    moment.Uses place key

/-- The step at the place is the last on the path to write the key. -/
def Leaves (place : Place) (key : String) (path : List Moment) : Prop :=
  ∃ before step after, path = before ++ .writes place step :: after ∧ key ∈ step.writes ∧
    Spares key after

/-- The path uses something that the step at the place has written. -/
def Used (place : Place) (path : List Moment) : Prop :=
  ∃ before step after, path = before ++ .writes place step :: after ∧
    ∃ key ∈ step.writes, Uses place key after

section

variable {place : Place} {key : String} {moment : Moment} {path after : List Moment}

@[simp] theorem spares_nil : Spares key [] := by
  simp [Spares]

@[simp] theorem spares_cons :
    Spares key (moment :: path) ↔ ¬ moment.Overwrites key ∧ Spares key path := by
  simp [Spares]

@[simp] theorem not_uses_nil : ¬ Uses place key [] := by
  simp [Uses]

@[simp] theorem uses_cons :
    Uses place key (moment :: path) ↔
      moment.Uses place key ∨ ¬ moment.Overwrites key ∧ Uses place key path := by
  constructor
  · intro h
    obtain ⟨before, other, rest, eq, spares, uses⟩ := h
    cases before with
    | nil =>
      obtain ⟨rfl, rfl⟩ : moment = other ∧ path = rest := by simpa using eq
      exact .inl uses
    | cons first before =>
      obtain ⟨rfl, rfl⟩ : moment = first ∧ path = before ++ other :: rest := by simpa using eq
      obtain ⟨kept, spares⟩ := spares_cons.1 spares
      exact .inr ⟨kept, before, other, rest, rfl, spares, uses⟩
  · intro h
    rcases h with uses | ⟨kept, before, other, rest, rfl, spares, uses⟩
    · exact ⟨[], moment, path, rfl, spares_nil, uses⟩
    · exact ⟨moment :: before, other, rest, rfl, spares_cons.2 ⟨kept, spares⟩, uses⟩

@[simp] theorem not_leaves_nil : ¬ Leaves place key [] := by
  simp [Leaves]

@[simp] theorem leaves_cons :
    Leaves place key (moment :: path) ↔
      (∃ step, moment = .writes place step ∧ key ∈ step.writes ∧ Spares key path) ∨
        Leaves place key path := by
  constructor
  · intro h
    obtain ⟨before, step, rest, eq, mem, spares⟩ := h
    cases before with
    | nil =>
      obtain ⟨rfl, rfl⟩ : moment = .writes place step ∧ path = rest := by simpa using eq
      exact .inl ⟨step, rfl, mem, spares⟩
    | cons first before =>
      obtain ⟨rfl, rfl⟩ : moment = first ∧ path = before ++ .writes place step :: rest := by
        simpa using eq
      exact .inr ⟨before, step, rest, rfl, mem, spares⟩
  · intro h
    rcases h with ⟨step, rfl, mem, spares⟩ | ⟨before, step, rest, rfl, mem, spares⟩
    · exact ⟨[], step, path, rfl, mem, spares⟩
    · exact ⟨moment :: before, step, rest, rfl, mem, spares⟩

@[simp] theorem not_used_nil : ¬ Used place [] := by
  simp [Used]

@[simp] theorem used_cons :
    Used place (moment :: path) ↔
      (∃ step, moment = .writes place step ∧ ∃ key ∈ step.writes, Uses place key path) ∨
        Used place path := by
  constructor
  · intro h
    obtain ⟨before, step, rest, eq, uses⟩ := h
    cases before with
    | nil =>
      obtain ⟨rfl, rfl⟩ : moment = .writes place step ∧ path = rest := by simpa using eq
      exact .inl ⟨step, rfl, uses⟩
    | cons first before =>
      obtain ⟨rfl, rfl⟩ : moment = first ∧ path = before ++ .writes place step :: rest := by
        simpa using eq
      exact .inr ⟨before, step, rest, rfl, uses⟩
  · intro h
    rcases h with ⟨step, rfl, uses⟩ | ⟨before, step, rest, rfl, uses⟩
    · exact ⟨[], step, path, rfl, uses⟩
    · exact ⟨moment :: before, step, rest, rfl, uses⟩

theorem spares_append : Spares key (path ++ after) ↔ Spares key path ∧ Spares key after := by
  simp [Spares, or_imp, forall_and]

theorem uses_append :
    Uses place key (path ++ after) ↔
      Uses place key path ∨ Spares key path ∧ Uses place key after := by
  induction path with
  | nil => simp
  | cons moment path ih =>
    simp only [List.cons_append, uses_cons, spares_cons, ih]
    tauto

theorem leaves_append :
    Leaves place key (path ++ after) ↔
      Leaves place key after ∨ Leaves place key path ∧ Spares key after := by
  induction path with
  | nil => simp
  | cons moment path ih =>
    simp only [List.cons_append, leaves_cons, spares_append, ih]
    grind

/-- What is written on a path is used on it, on what comes after, or from one to the other. -/
theorem used_append :
    Used place (path ++ after) ↔
      Used place path ∨ Used place after ∨ ∃ key, Leaves place key path ∧ Uses place key after := by
  induction path with
  | nil => simp
  | cons moment path ih =>
    simp only [List.cons_append, used_cons, leaves_cons, uses_append, ih]
    grind

end

end Workflow.Liveness
