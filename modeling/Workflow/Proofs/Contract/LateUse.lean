import Workflow.Proofs.Contract.Course
import Workflow.Proofs.Contract.DeadOutput
import Workflow.Proofs.Contract.Transforms

/-! Late uses of a value: which uses of a written value a report of a dead output rules out, and
which ones it knows nothing about. -/
namespace Workflow

/-- The keys that an instruction takes in if they are there. -/
def Tree.optionalKeys (step : Node) : List String :=
  match step.kind with
  | .leaf spec =>
    (((spec.instruction.map placeholders).getD []).filter (·.optional)).map (·.key)
  | _ => []

/-- Whatever value the key has is replaced or removed when the step runs. A transform does what its
operations do; only a call of a model is trusted with what it declares. -/
def Tree.Overwrites (step : Node) (key : String) : Prop :=
  match step.kind with
  | .transform ops => ∀ state : State, state.contains key → (applyOps ops state).contains key
  | .leaf _ => key ∈ step.writes
  | kind => key ∈ kind.writes

namespace Liveness

namespace Stop

/-- The value that the key has is certainly gone. -/
def Overwrites (key : String) : Stop → Prop
  | .moment (.writes _ step) => step.Overwrites key
  | .moment _ | .tests _ | .repeats | .skips | .leaves => False

/-- An instruction takes in the key if it is there, and nothing else of the step asks for it. -/
def TakesIn (key : String) : Stop → Prop
  | .moment (.asks _ step) => key ∈ step.optionalKeys ∧ key ∉ step.demand
  | .moment _ | .tests _ | .repeats | .skips | .leaves => False

/-- A loop tests the key. -/
def Tests (key : String) : Stop → Prop
  | .tests exit => ∃ predicate ∈ exit, key ∈ predicate.keys
  | .moment _ | .repeats | .skips | .leaves => False

/-- The value that the step at the place has left under the key may be used. -/
def MayUse (place : Place) (key : String) (stop : Stop) : Prop :=
  (∃ moment, stop = .moment moment ∧ moment.Uses place key) ∨ stop.TakesIn key ∨ stop.Tests key

/-- The step counts as one that writes the key, and may leave the value as it is. -/
def MaySpare (key : String) : Stop → Prop
  | .moment (.writes _ step) => key ∈ step.writes ∧ ¬ step.Overwrites key
  | .moment _ | .tests _ | .repeats | .skips | .leaves => False

end Stop

/-- Why a use does not count: the key is only taken in if it is there, or tested by a loop itself; or
on the way to the use a loop begins again or is left at a checkpoint, nothing runs inside of a step,
or a step counts as one that writes the key without doing so for certain. -/
def Uncounted (key : String) (between : List Stop) (stop : Stop) : Prop :=
  stop.TakesIn key ∨ stop.Tests key ∨ .repeats ∈ between ∨ .skips ∈ between ∨ .leaves ∈ between ∨
    ∃ earlier ∈ between, earlier.MaySpare key

section

variable {root step : Node} {place : Place} {key : String}

/-- A use that counts is one on a forward path. -/
theorem used_of_counted {before between after : List Stop} {stop : Stop} {ending : Ending}
    (course : courses root [] (before ++ .moment (.writes place step) :: (between ++ stop :: after))
      ending)
    (writes : key ∈ step.writes) (kept : ∀ earlier ∈ between, ¬ earlier.Overwrites key)
    (uses : stop.MayUse place key) (counted : ¬ Uncounted key between stop) :
    ∃ path on, Forward [] root path on ∧ Used place path := by
  simp only [Uncounted, not_or] at counted
  obtain ⟨taken, tested, repeats, skips, leaves, spares⟩ := counted
  obtain ⟨moment, rfl, asked⟩ : ∃ moment, stop = .moment moment ∧ moment.Uses place key := by
    simpa [Stop.MayUse, taken, tested] using uses
  have straight : Straight (.moment (.writes place step) :: (between ++ [.moment moment])) := by
    simp [Straight, repeats, skips, leaves]
  obtain ⟨start, rest, goes, path, -⟩ := (mirrors_courses root []).parts before _ after ending
    (by simpa using course) straight
  refine ⟨_, goes, path, start, step, strip between ++ moment :: rest, by simp, key, writes,
    strip between, moment, rest, rfl, fun earlier mem overwrites => ?_, asked⟩
  -- A step that counts as one that writes the key does not do so for certain.
  obtain ⟨stop, among, eq⟩ := List.mem_filterMap.1 mem
  cases stop with
  | moment own =>
    obtain rfl : own = earlier := by simpa using eq
    cases own with
    | writes place step => exact spares ⟨_, among, overwrites, kept _ among⟩
    | asks | collects => exact overwrites
  | tests | repeats | skips | leaves => simp at eq

theorem filter_isDeadOutput_checkWith (root : Node) (seed : KeySet) :
    (checkWith root seed).filter Diagnostic.isDeadOutput = deadOutputs root := by
  rw [checkWith, List.filter_append, filter_isDeadOutput_pass, List.nil_append]
  refine List.filter_eq_self.2 fun diagnostic mem => ?_
  obtain ⟨writer, -, rfl⟩ := List.mem_map.1 mem
  exact isDeadOutput_deadOutput writer

open Classical in
theorem deadOutputs_eq (root : Node) :
    deadOutputs root =
      ((writersAt [] root).filter fun (place, _) =>
        root.Followed place ∧ ¬ ∃ path on, Forward [] root path on ∧ Used place path).map
          fun (_, step) => deadReport step := by
  rw [deadOutputs, writers_pass, List.filter_map, List.map_map]
  refine congrArg (List.map fun entry : Place × Node => deadReport entry.2) ?_
  refine List.filter_congr fun entry _ => ?_
  obtain ⟨place, step⟩ := entry
  rw [Bool.eq_iff_iff]
  simp [writerOf]

/-- A step is only reported as a dead output if no step that can run after it can use one of its
values before it is overwritten for certain, except for uses that do not count. -/
theorem uncounted_of_reported (root : Node) (seed : KeySet) :
    ∃ reported : List (Place × Node), reported.Sublist root.completions ∧
      (checkWith root seed).filter Diagnostic.isDeadOutput =
        reported.map (fun (_, step) => deadReport step) ∧
      ∀ place step, (place, step) ∈ reported → ∀ before between stop after ending key,
        courses root [] (before ++ .moment (.writes place step) :: (between ++ stop :: after))
          ending →
        key ∈ step.writes → (∀ earlier ∈ between, ¬ earlier.Overwrites key) →
        stop.MayUse place key → Uncounted key between stop := by
  classical
  refine ⟨_, ?_, (filter_isDeadOutput_checkWith root seed).trans (deadOutputs_eq root), ?_⟩
  · have all : writersAt [] root =
        root.completions.filter fun entry => isWriter entry.2.kind && !entry.2.writes.isEmpty :=
      List.map_id _
    rw [all]
    exact List.filter_sublist.trans List.filter_sublist
  · intro place step mem before between stop after ending key course writes kept uses
    by_contra counted
    obtain ⟨-, unused⟩ : root.Followed place ∧
        ¬ ∃ path on, Forward [] root path on ∧ Used place path := by
      simpa using (List.mem_filter.1 mem).2
    exact unused (used_of_counted course writes kept uses counted)

end

section Unnoticed

/-- The step at the place is reported, and on some course what it has left under a key is used before
it is overwritten for certain. -/
def ReportedButUsed (root : Node) (seed : KeySet) (place : Place) : Prop :=
  ∃ step, root.at? place = some step ∧ deadReport step ∈ checkWith root seed ∧
    ∃ before between stop after ending key,
      courses root [] (before ++ .moment (.writes place step) :: (between ++ stop :: after)) ending ∧
        key ∈ step.writes ∧ (∀ earlier ∈ between, ¬ earlier.Overwrites key) ∧
        stop.MayUse place key

/-- What happens at a step without steps below. -/
def stopsAt (place : Place) (step : Node) : List Stop :=
  [.moment (.asks place step), .moment (.writes place step)]

theorem courses_plain (step : Node) (place : Place) (plain : step.kind.isComposite = false) :
    courses step place (stopsAt place step) .goesOn := by
  rw [courses_eq]
  refine .inr ⟨[_], [_], rfl, ⟨rfl, rfl⟩, ?_⟩
  obtain ⟨name, contract, kind⟩ := step
  cases kind with
  | leaf | transform | gate | transfer | capture => exact ⟨rfl, rfl⟩
  | tap action =>
    cases action with
    | log => exact ⟨rfl, rfl⟩
    | checkpoint => exact .inl ⟨rfl, rfl⟩
  | _ => exact Bool.noConfusion plain

theorem inTurn_done : Courses.inTurn [] [] .goesOn := ⟨rfl, rfl⟩

section

variable {place : Place} {course : List Stop} {ending : Ending}

theorem inTurn_next {first : Courses} {rest : List Courses} {before more : List Stop}
    (h : first before .goesOn) (h' : Courses.inTurn rest more ending)
    (eq : course = before ++ more) : Courses.inTurn (first :: rest) course ending :=
  .inr ⟨before, more, eq, h, h'⟩

theorem courses_flowOf {steps : List Node}
    (h : Courses.inTurn (Courses.placed place (steps.map courses)) course ending) :
    courses (flowOf steps) place (.moment (.asks place (flowOf steps)) :: course) ending := by
  rw [courses_eq]
  exact .inr ⟨[_], course, rfl, ⟨rfl, rfl⟩, h⟩

/-- A call of a model that may keep the reply under a key. -/
def callOf (name instruction : String) (output : Option String) : Node :=
  .mk name .empty
    (.leaf { AgentSpec.empty with instruction := some instruction, outputKey := output })

def loopOf (body : Node) (bound : UInt32) (exit : Option Predicate) : Node :=
  .mk "loop" .empty (.loop body bound exit)

theorem courses_loopOf {body : Node} {bound : UInt32} {exit : Option Predicate}
    (h : let round := (courses body (place ++ [0])).andThen (.only [.tests exit])
      round.rounds bound.toNat course .goesOn ∨ round.rounds bound.toNat course .leaves) :
    courses (loopOf body bound exit) place
      (.moment (.asks place (loopOf body bound exit)) :: course) .goesOn := by
  rw [courses_eq]
  exact .inr ⟨[_], course, rfl, ⟨rfl, rfl⟩, Ending.noConfusion, h.imp id fun h => ⟨rfl, h⟩⟩

end

def pickTone : Node := callOf "pick" "Pick a tone." (some "tone")

def useTone : Node := callOf "write" "Tone: {tone?}" none

def toneFlow : Node := flowOf [pickTone, useTone]

theorem reportedButUsed_toneFlow : ReportedButUsed toneFlow ∅ [0] := by
  refine ⟨pickTone, rfl, by decide,
    [.moment (.asks [] toneFlow), .moment (.asks [0] pickTone)], [], .moment (.asks [1] useTone),
    [.moment (.writes [1] useTone)], .goesOn, "tone", courses_flowOf ?_, by decide, nofun,
    .inr (.inl ⟨by decide, by decide⟩)⟩
  exact inTurn_next (courses_plain pickTone [0] rfl)
    (inTurn_next (courses_plain useTone [1] rfl) inTurn_done rfl) rfl

def reviewText : Node := callOf "review" "Review." (some "approved")

def untilFlow : Node := loopOf reviewText 1 (some (.truthy "approved"))

theorem reportedButUsed_untilFlow : ReportedButUsed untilFlow ∅ [0] := by
  refine ⟨reviewText, rfl, by decide,
    [.moment (.asks [] untilFlow), .moment (.asks [0] reviewText)], [],
    .tests (some (.truthy "approved")), [], .goesOn, "approved",
    courses_loopOf (.inl ?_), by decide, nofun, .inr (.inr ⟨_, rfl, by decide⟩)⟩
  exact .inr ⟨stopsAt [0] reviewText, _, rfl, courses_plain reviewText [0] rfl, rfl, rfl⟩

def applyFeedback : Node := callOf "write" "Use {feedback}." none

def giveFeedback : Node := callOf "review" "Review." (some "feedback")

def feedbackRound : Node := flowOf [applyFeedback, giveFeedback]

def feedbackFlow : Node := loopOf feedbackRound 2 none

theorem reportedButUsed_feedbackFlow :
    ReportedButUsed feedbackFlow (.singleton "feedback") [0, 1] := by
  let round : List Stop := .moment (.asks [0] feedbackRound) ::
    (stopsAt [0, 0] applyFeedback ++ (stopsAt [0, 1] giveFeedback ++ []))
  have body : courses feedbackRound [0] round .goesOn :=
    courses_flowOf (inTurn_next (courses_plain applyFeedback [0, 0] rfl)
      (inTurn_next (courses_plain giveFeedback [0, 1] rfl) inTurn_done rfl) rfl)
  refine ⟨giveFeedback, rfl, by decide, .moment (.asks [] feedbackFlow) ::
      .moment (.asks [0] feedbackRound) :: (stopsAt [0, 0] applyFeedback ++
        [.moment (.asks [0, 1] giveFeedback)]),
    [.tests none, .repeats, .moment (.asks [0] feedbackRound)],
    .moment (.asks [0, 0] applyFeedback),
    .moment (.writes [0, 0] applyFeedback) :: (stopsAt [0, 1] giveFeedback ++ [.tests none]),
    .goesOn, "feedback", courses_loopOf (.inl ?_), by decide, ?_,
    .inl ⟨_, rfl, (by decide : "feedback" ∈ applyFeedback.demand)⟩⟩
  · have once : (Courses.andThen (courses feedbackRound [0]) (.only [.tests none]))
        (round ++ [.tests none]) .goesOn := .inr ⟨round, _, rfl, body, rfl, rfl⟩
    have twice : (Courses.andThen (courses feedbackRound [0]) (.only [.tests none])).rounds 2
        (round ++ [.tests none] ++ ([.repeats] ++ (round ++ [.tests none]))) .goesOn :=
      .inr (.inr ⟨_, _, rfl, once, .inr ⟨_, _, rfl, ⟨rfl, rfl⟩, once⟩⟩)
    exact twice
  · simp [Stop.Overwrites]

def guessAnswer : Node := callOf "guess" "Answer." (some "answer")

def routedFlow : Node := flowOf [guessAnswer, intentRoute, answerReader]

theorem reportedButUsed_routedFlow : ReportedButUsed routedFlow (.singleton "intent") [0] := by
  refine ⟨guessAnswer, rfl, by decide,
    [.moment (.asks [] routedFlow), .moment (.asks [0] guessAnswer)],
    [.moment (.asks [1] intentRoute), .skips], .moment (.asks [2] answerReader),
    [.moment (.writes [2] answerReader)], .goesOn, "answer", courses_flowOf ?_, by decide, ?_,
    .inl ⟨_, rfl, (by decide : "answer" ∈ answerReader.demand)⟩⟩
  · have passed : courses intentRoute [1] [.moment (.asks [1] intentRoute), .skips] .goesOn :=
      .inr ⟨[_], [_], rfl, ⟨rfl, rfl⟩, .inr ⟨rfl, rfl⟩⟩
    exact inTurn_next (courses_plain guessAnswer [0] rfl)
      (inTurn_next passed (inTurn_next (courses_plain answerReader [2] rfl) inTurn_done rfl) rfl) rfl
  · simp [Stop.Overwrites]

def writeDraft : Node := callOf "write" "Write." (some "draft")

def rewriteDraft : Node := callOf "rewrite" "Rewrite." (some "draft")

def rewriteNever : Node := loopOf rewriteDraft 0 none

def editDraft : Node := callOf "edit" "Edit {draft}." none

def neverFlow : Node := flowOf [writeDraft, rewriteNever, editDraft]

theorem reportedButUsed_neverFlow : ReportedButUsed neverFlow ∅ [0] := by
  refine ⟨writeDraft, rfl, by decide,
    [.moment (.asks [] neverFlow), .moment (.asks [0] writeDraft)],
    [.moment (.asks [1] rewriteNever), .skips], .moment (.asks [2] editDraft),
    [.moment (.writes [2] editDraft)], .goesOn, "draft", courses_flowOf ?_, by decide, ?_,
    .inl ⟨_, rfl, (by decide : "draft" ∈ editDraft.demand)⟩⟩
  · have passed : courses rewriteNever [1] [.moment (.asks [1] rewriteNever), .skips] .goesOn :=
      courses_loopOf (.inl ⟨rfl, rfl⟩)
    exact inTurn_next (courses_plain writeDraft [0] rfl)
      (inTurn_next passed (inTurn_next (courses_plain editDraft [2] rfl) inTurn_done rfl) rfl) rfl
  · simp [Stop.Overwrites]

def checkDone : Node := .mk "check" .empty (.tap (.checkpoint (.truthy "done")))

def doneRound : Node := flowOf [writeDraft, checkDone, rewriteDraft]

def doneLoop : Node := loopOf doneRound 1 none

def doneFlow : Node := flowOf [doneLoop, editDraft]

theorem reportedButUsed_doneFlow : ReportedButUsed doneFlow (.singleton "done") [0, 0, 0] := by
  let check : List Stop := stopsAt [0, 0, 1] checkDone ++ [.leaves]
  let round : List Stop :=
    .moment (.asks [0, 0] doneRound) :: (stopsAt [0, 0, 0] writeDraft ++ check)
  refine ⟨writeDraft, rfl, by decide,
    [.moment (.asks [] doneFlow), .moment (.asks [0] doneLoop), .moment (.asks [0, 0] doneRound),
      .moment (.asks [0, 0, 0] writeDraft)],
    check, .moment (.asks [1] editDraft), [.moment (.writes [1] editDraft)], .goesOn, "draft",
    courses_flowOf ?_, by decide, ?_, .inl ⟨_, rfl, (by decide : "draft" ∈ editDraft.demand)⟩⟩
  · have leaves : courses checkDone [0, 0, 1] check .leaves :=
      .inr ⟨[_], _, rfl, ⟨rfl, rfl⟩, .inr (.inr ⟨[_], _, rfl, ⟨rfl, rfl⟩, rfl, rfl⟩)⟩
    have body : courses doneRound [0, 0] round .leaves :=
      courses_flowOf (inTurn_next (courses_plain writeDraft [0, 0, 0] rfl)
        (.inl ⟨leaves, Ending.noConfusion⟩) rfl)
    have loop : courses doneLoop [0] (.moment (.asks [0] doneLoop) :: round) .goesOn :=
      courses_loopOf (.inr (.inl ⟨body, Ending.noConfusion⟩))
    exact inTurn_next loop (inTurn_next (courses_plain editDraft [1] rfl) inTurn_done rfl) rfl
  · simp [check, stopsAt, Stop.Overwrites, checkDone, Tree.Overwrites, Tree.kind, Kind.writes]

def defaultDraft : Node := transformOf (.default "draft" (.string "none"))

def defaultFlow : Node := flowOf [writeDraft, defaultDraft, editDraft]

theorem not_overwrites_defaultDraft : ¬ defaultDraft.Overwrites "draft" := by
  intro overwrites
  have kept : (applyOps [.default "draft" (.string "none")] draftState).contains "draft" = false :=
    by decide
  rw [overwrites draftState (by decide)] at kept
  exact absurd kept.symm Bool.false_ne_true

theorem reportedButUsed_defaultFlow : ReportedButUsed defaultFlow ∅ [0] := by
  refine ⟨writeDraft, rfl, by decide,
    [.moment (.asks [] defaultFlow), .moment (.asks [0] writeDraft)], stopsAt [1] defaultDraft,
    .moment (.asks [2] editDraft), [.moment (.writes [2] editDraft)], .goesOn, "draft",
    courses_flowOf ?_, by decide, ?_, .inl ⟨_, rfl, (by decide : "draft" ∈ editDraft.demand)⟩⟩
  · exact inTurn_next (courses_plain writeDraft [0] rfl)
      (inTurn_next (courses_plain defaultDraft [1] rfl)
        (inTurn_next (courses_plain editDraft [2] rfl) inTurn_done rfl) rfl) rfl
  · simp [stopsAt, Stop.Overwrites, not_overwrites_defaultDraft]

/-- Each exception is needed: a key that is only taken in if it is there, one that a loop tests, a
loop that begins again, a route that is passed over, a loop that does not run, one that is left at a
checkpoint, and a default for a key that is there. -/
theorem reportedButUsed_flows :
    ReportedButUsed toneFlow ∅ [0] ∧ ReportedButUsed untilFlow ∅ [0] ∧
      ReportedButUsed feedbackFlow (.singleton "feedback") [0, 1] ∧
      ReportedButUsed routedFlow (.singleton "intent") [0] ∧ ReportedButUsed neverFlow ∅ [0] ∧
      ReportedButUsed doneFlow (.singleton "done") [0, 0, 0] ∧ ReportedButUsed defaultFlow ∅ [0] :=
  ⟨reportedButUsed_toneFlow, reportedButUsed_untilFlow, reportedButUsed_feedbackFlow,
    reportedButUsed_routedFlow, reportedButUsed_neverFlow, reportedButUsed_doneFlow,
    reportedButUsed_defaultFlow⟩

end Unnoticed

end Liveness

end Workflow
