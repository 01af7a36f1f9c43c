import Mathlib.Data.List.Duplicate
import Workflow.Flow.Lower
import Workflow.Proofs.Tree.Occurrence

/-! Completing expressions: the tree that an expression stands for, with all names filled in, and what
can keep the expression from being completed to it. -/
namespace Workflow

section Gathering

variable {ε α β γ δ : Type}

/-- The result for several parts: the failure of one of them, or, if each part has its expected
result, the expected whole. -/
def Gathers (f : α → Except ε β) (g : α → β) (parts : List α) (result : Except ε γ) (whole : γ) :
    Prop :=
  (∃ error, ∃ part ∈ parts, f part = .error error ∧ result = .error error) ∨
    (∀ part ∈ parts, f part = .ok (g part)) ∧ result = .ok whole

/-- No part has a result other than the expected one. -/
def Expects (f : α → Except ε β) (g : α → β) (parts : List α) : Prop :=
  ∀ part ∈ parts, ∀ result, f part = .ok result → result = g part

variable {f : α → Except ε β} {g : α → β}

theorem Gathers.nil (whole : γ) : Gathers f g [] (.ok whole) whole :=
  .inr ⟨by simp, rfl⟩

theorem Expects.single {part : α} (h : Expects f g [part]) : Gathers f g [part] (f part) (g part) := by
  cases own : f part with
  | error error => exact .inl ⟨error, part, by simp, own, rfl⟩
  | ok result =>
    obtain rfl := h part (by simp) result own
    exact .inr ⟨by simpa using own, rfl⟩

theorem Gathers.map {parts : List α} {result : Except ε γ} {whole : γ}
    (h : Gathers f g parts result whole) (make : γ → δ) :
    Gathers f g parts (return make (← result)) (make whole) := by
  rcases h with ⟨error, part, mem, fails, rfl⟩ | ⟨each, rfl⟩
  · exact .inl ⟨error, part, mem, fails, rfl⟩
  · exact .inr ⟨each, rfl⟩

/-- The second half of the parts is only looked at if no part of the first fails. -/
theorem Gathers.append {κ : Type} {first second : List α} {left : Except ε γ} {right : Except ε δ}
    {one : γ} {other : δ} (hl : Gathers f g first left one) (hr : Gathers f g second right other)
    (make : γ → δ → κ) :
    Gathers f g (first ++ second) (do let one ← left; let other ← right; return make one other)
      (make one other) := by
  rcases hl with ⟨error, part, mem, fails, rfl⟩ | ⟨eachl, rfl⟩
  · exact .inl ⟨error, part, List.mem_append_left second mem, fails, rfl⟩
  rcases hr with ⟨error, part, mem, fails, rfl⟩ | ⟨eachr, rfl⟩
  · exact .inl ⟨error, part, List.mem_append_right first mem, fails, rfl⟩
  · exact .inr ⟨fun part mem => (List.mem_append.1 mem).elim (eachl part) (eachr part), rfl⟩

/-- A part may be kept in something that is made anew around its result. -/
theorem Expects.mapM {items : List γ} {part : γ → α} (h : Expects f g (items.map part))
    (make : γ → β → δ) :
    Gathers f g (items.map part) (items.mapM fun item => return make item (← f (part item)))
      (items.map fun item => make item (g (part item))) := by
  induction items with
  | nil => exact .nil []
  | cons first rest ih =>
    rw [List.mapM_cons]
    have head : Expects f g [part first] := fun one mem =>
      h one (List.mem_cons.2 (.inl (List.mem_singleton.1 mem)))
    have tail : Expects f g (rest.map part) := fun one mem => h one (List.mem_cons_of_mem _ mem)
    exact (head.single.map (make first)).append (ih tail) List.cons

end Gathering

namespace Kind

variable {ε α β : Type} {f : α → Except ε β} {g : α → β}

/-- A step is put together again unless one of the steps below it fails. -/
theorem gathers_collect {kind : Kind α} (h : Expects f g kind.children) :
    Gathers f g kind.children (kind.map f).collect (kind.map g) := by
  have group {parts : List α} (h : Expects f g parts) (make : List β → Kind β) :
      Gathers f g parts (return make (← (parts.map f).mapM id)) (make (parts.map g)) := by
    rw [← List.map_id parts] at h ⊢
    simpa [List.mapM_map] using (h.mapM fun _ result => result).map make
  cases kind with
  | sequence children => exact group h .sequence
  | parallel children => exact group h .parallel
  | fallback children => exact group h .fallback
  | race children => exact group h .race
  | loop body bound exit => exact h.single.map (Kind.loop · bound exit)
  | mapOver body listKey itemKey outputKey =>
    exact h.single.map (Kind.mapOver · listKey itemKey outputKey)
  | timeout body deadline => exact h.single.map (Kind.timeout · deadline)
  | route key rules otherwise =>
    have arms : Expects f g (rules.map (·.target)) := fun part mem =>
      h part (List.mem_append_left _ mem)
    have last : Gathers f g otherwise.toList ((otherwise.map f).mapM id) (otherwise.map g) := by
      cases otherwise with
      | none => exact .nil none
      | some arm =>
        have own : Expects f g [arm] := fun part mem => h part (List.mem_append_right _ mem)
        exact own.single.map some
    have both := (arms.mapM fun rule result => Rule.mk rule.predicate result).append last
      (Kind.route key)
    simp only [children, map, collect, List.mapM_map]
    exact both
  | _ => exact .nil _

/-- Only a group can be without steps below it. -/
theorem isEmptyGroup_iff {kind : Kind α} :
    kind.isEmptyGroup = true ↔ kind.isComposite = true ∧ kind.children = [] := by
  cases kind with
  | route key rules otherwise => cases otherwise <;> simp [isEmptyGroup, isComposite, children]
  | _ => simp [isEmptyGroup, isComposite, children]

@[simp] theorem isComposite_map (f : α → β) (kind : Kind α) :
    (kind.map f).isComposite = kind.isComposite := by
  cases kind <;> rfl

theorem map_eq_loop {f : α → β} {kind : Kind α} {body : β} {bound : UInt32}
    {exit : Option Predicate} :
    kind.map f = .loop body bound exit ↔ ∃ inner, kind = .loop inner bound exit ∧ f inner = body := by
  cases kind <;> simp [map, and_comm]

theorem map_eq_tap {f : α → β} {kind : Kind α} {action : TapAction} :
    kind.map f = .tap action ↔ kind = .tap action := by
  cases kind <;> simp [map]

end Kind

section Repeats

theorem firstRepeat?_eq_go (names : List String) :
    firstRepeat? names = firstRepeat?.go [] names := by
  cases names <;> rfl

theorem firstRepeat?_go_eq_none {seen names : List String} :
    firstRepeat?.go seen names = none ↔ names.Nodup ∧ ∀ name ∈ names, name ∉ seen := by
  induction names generalizing seen with
  | nil => simp [firstRepeat?.go]
  | cons name rest ih =>
    by_cases again : name ∈ seen
    · simp [firstRepeat?.go, again]
    · simp only [firstRepeat?.go, List.contains_iff_mem, again, if_false, ih, List.nodup_cons,
        List.mem_cons, not_or]
      grind

theorem firstRepeat?_go_eq_some {seen names : List String} {twice : String}
    (h : firstRepeat?.go seen names = some twice) :
    twice ∈ names ∧ (twice ∈ seen ∨ List.Duplicate twice names) := by
  induction names generalizing seen with
  | nil => simp [firstRepeat?.go] at h
  | cons name rest ih =>
    by_cases again : name ∈ seen
    · obtain rfl : name = twice := by simpa [firstRepeat?.go, again] using h
      exact ⟨List.mem_cons_self, .inl again⟩
    · have h : firstRepeat?.go (name :: seen) rest = some twice := by
        simpa [firstRepeat?.go, again] using h
      obtain ⟨mem, before⟩ := ih h
      refine ⟨List.mem_cons_of_mem name mem, ?_⟩
      rcases before with before | later
      · rcases List.mem_cons.1 before with rfl | before
        · exact .inr mem.duplicate_cons_self
        · exact .inl before
      · exact .inr (later.duplicate_cons name)

theorem firstRepeat?_eq_none {names : List String} : firstRepeat? names = none ↔ names.Nodup := by
  simp [firstRepeat?_eq_go, firstRepeat?_go_eq_none]

theorem duplicate_of_firstRepeat? {names : List String} {twice : String}
    (h : firstRepeat? names = some twice) : List.Duplicate twice names := by
  rw [firstRepeat?_eq_go] at h
  obtain ⟨_, before | later⟩ := firstRepeat?_go_eq_some h
  · simp at before
  · exact later

end Repeats

namespace Flow

/-- The tree that the expression stands for, whether or not it can be completed to it. -/
def outline (flow : Flow) : Node :=
  flow.fold fun flow kind => .mk (flow.name.getD (Naming.derive kind)) flow.contract kind

theorem outline_eq (flow : Flow) :
    flow.outline = .mk (flow.name.getD (Naming.derive (flow.kind.map outline))) flow.contract
      (flow.kind.map outline) :=
  Tree.fold_eq _ flow

@[simp] theorem kind_outline (flow : Flow) : flow.outline.kind = flow.kind.map outline := by
  rw [outline_eq]
  rfl

@[simp] theorem contract_outline (flow : Flow) : flow.outline.contract = flow.contract := by
  rw [outline_eq]
  rfl

theorem name_outline (flow : Flow) :
    flow.outline.name = flow.name.getD (Naming.derive flow.outline.kind) := by
  rw [kind_outline, outline_eq]
  rfl

@[simp] theorem children_outline (flow : Flow) :
    flow.outline.children = flow.children.map outline := by
  simp [Tree.children]

theorem steps_outline (flow : Flow) : flow.outline.steps = flow.steps.map outline := by
  induction flow using Tree.induction with
  | step flow ih =>
    rw [Tree.steps_eq, Tree.steps_eq, children_outline, List.map_cons, List.flatMap_map,
      List.map_flatMap]
    congr 1
    exact List.flatMap_congr ih

/-- What keeps one step of an expression from being completed, and the error it leads to. -/
inductive Fault (flow : Flow) : Error → Prop where
  | empty (composite : flow.kind.isComposite = true) (childless : flow.children = []) :
    Fault flow (.emptyComposite flow.kind.tag)
  | bound (body : Flow) (exit : Option Predicate) (loop : flow.kind = .loop body 0 exit) :
    Fault flow (.invalidBound flow.outline.name 0)
  | twice (name : String) (siblings : List.Duplicate name (flow.outline.children.map (·.name))) :
    Fault flow (.duplicateName flow.outline.name name)

/-- What an expression has to satisfy in order to be completed. -/
structure WellFormed (flow : Flow) : Prop where
  nonempty : ∀ step ∈ flow.steps, step.kind.isComposite = true → step.children ≠ []
  bounded : ∀ step ∈ flow.steps, ∀ body exit, step.kind ≠ .loop body 0 exit
  /-- It is the names after completion that count, given or not. -/
  distinct : ∀ node ∈ flow.outline.steps, (node.children.map (·.name)).Nodup

theorem wellFormed_iff {flow : Flow} :
    flow.WellFormed ↔ ∀ step ∈ flow.steps, ∀ error, ¬ Fault step error := by
  constructor
  · intro h step mem error fault
    cases fault with
    | empty composite childless => exact h.nonempty step mem composite childless
    | bound body exit loop => exact h.bounded step mem body exit loop
    | twice name siblings =>
      have node : outline step ∈ flow.outline.steps := by
        rw [steps_outline]
        exact List.mem_map_of_mem mem
      exact List.nodup_iff_forall_not_duplicate.1 (h.distinct _ node) name siblings
  · intro h
    refine ⟨fun step mem composite childless => h step mem _ (.empty composite childless),
      fun step mem body exit loop => h step mem _ (.bound body exit loop), fun node among => ?_⟩
    rw [steps_outline] at among
    obtain ⟨step, mem, rfl⟩ := List.mem_map.1 among
    exact List.nodup_iff_forall_not_duplicate.2 fun name siblings =>
      h step mem _ (.twice name siblings)

theorem lower_eq (flow : Flow) : flow.lower = lowerStep flow (flow.kind.map lower) :=
  Tree.fold_eq _ flow

theorem checkBound_cases (name : String) (kind : Kind Node) :
    (¬ ∃ body exit, kind = .loop body 0 exit) ∧ checkBound name kind = .ok () ∨
      (∃ body exit, kind = .loop body 0 exit) ∧
        checkBound name kind = .error (.invalidBound name 0) := by
  cases kind with
  | loop body bound exit =>
    by_cases zero : bound = 0
    · subst zero
      exact .inr ⟨⟨body, exit, rfl⟩, rfl⟩
    · exact .inl ⟨by simpa using zero, by simp [checkBound, zero]⟩
  | _ => exact .inl ⟨by simp, rfl⟩

theorem checkSiblings_cases (name : String) (kind : Kind Node) :
    (kind.children.map (·.name)).Nodup ∧ checkSiblings name kind = .ok () ∨
      ∃ twice, List.Duplicate twice (kind.children.map (·.name)) ∧
        checkSiblings name kind = .error (.duplicateName name twice) := by
  rw [checkSiblings]
  cases first : firstRepeat? (kind.children.map (·.name)) with
  | none => exact .inl ⟨firstRepeat?_eq_none.1 first, rfl⟩
  | some twice => exact .inr ⟨twice, duplicate_of_firstRepeat? first, rfl⟩

theorem lowerStep_eq_error {flow : Flow} (empty : flow.kind.isEmptyGroup = true)
    (below : Kind (Except Error Node)) :
    lowerStep flow below = .error (.emptyComposite flow.kind.tag) := by
  simp only [lowerStep, empty, if_true]
  rfl

theorem lowerStep_eq_first {flow : Flow} {below : Kind (Except Error Node)} {error : Error}
    (members : flow.kind.isEmptyGroup = false) (first : below.collect = .error error) :
    lowerStep flow below = .error error := by
  simp only [lowerStep, members, first]
  rfl

theorem lowerStep_eq_checks {flow : Flow} {below : Kind (Except Error Node)}
    (members : flow.kind.isEmptyGroup = false) (all : below.collect = .ok flow.outline.kind) :
    lowerStep flow below = (do
      checkBound flow.outline.name flow.outline.kind
      checkSiblings flow.outline.name flow.outline.kind
      return flow.outline) := by
  have whole : flow.outline = .mk flow.outline.name flow.contract flow.outline.kind := by
    rw [name_outline, kind_outline, outline_eq]
  rw [whole]
  simp only [lowerStep, members, all]
  rw [name_outline]
  rfl

/-- Once the steps below it are completed, only a fault of the step itself is left. -/
theorem lowerStep_cases {flow : Flow} {below : Kind (Except Error Node)}
    (all : below.collect = .ok flow.outline.kind) :
    (∀ error, ¬ flow.Fault error) ∧ lowerStep flow below = .ok flow.outline ∨
      ∃ error, flow.Fault error ∧ lowerStep flow below = .error error := by
  cases empty : flow.kind.isEmptyGroup with
  | true =>
    obtain ⟨composite, childless⟩ := Kind.isEmptyGroup_iff.1 empty
    exact .inr ⟨_, .empty composite childless, lowerStep_eq_error empty below⟩
  | false =>
    have members : ¬ (flow.kind.isComposite = true ∧ flow.kind.children = []) := by
      rw [← Kind.isEmptyGroup_iff, empty]
      exact Bool.false_ne_true
    have loops : (∃ body exit, flow.outline.kind = .loop body 0 exit) ↔
        ∃ body exit, flow.kind = .loop body 0 exit := by
      simp only [kind_outline, Kind.map_eq_loop]
      exact ⟨fun ⟨_, exit, inner, loop, _⟩ => ⟨inner, exit, loop⟩,
        fun ⟨inner, exit, loop⟩ => ⟨_, exit, inner, loop, rfl⟩⟩
    rw [lowerStep_eq_checks empty all]
    rcases checkBound_cases flow.outline.name flow.outline.kind with
      ⟨bounded, passes⟩ | ⟨zero, fails⟩
    · rcases checkSiblings_cases flow.outline.name flow.outline.kind with
        ⟨distinct, differ⟩ | ⟨twice, siblings, fails⟩
      · rw [passes, differ]
        refine .inl ⟨fun error fault => ?_, rfl⟩
        cases fault with
        | empty composite childless => exact members ⟨composite, childless⟩
        | bound body exit loop => exact bounded (loops.2 ⟨body, exit, loop⟩)
        | twice name siblings =>
          exact List.nodup_iff_forall_not_duplicate.1 distinct name siblings
      · rw [passes, fails]
        exact .inr ⟨_, .twice twice siblings, rfl⟩
    · rw [fails]
      obtain ⟨body, exit, loop⟩ := loops.1 zero
      exact .inr ⟨_, .bound body exit loop, rfl⟩

/-- An expression without faults is completed to its outline, and another one not at all. -/
theorem lower_cases (flow : Flow) :
    flow.WellFormed ∧ flow.lower = .ok flow.outline ∨
      ∃ error, (∃ step ∈ flow.steps, Fault step error) ∧ flow.lower = .error error := by
  induction flow using Tree.induction with
  | step flow ih =>
    have expects : Expects lower outline flow.kind.children := by
      intro child mem tree completed
      rcases ih child mem with ⟨_, own⟩ | ⟨error, _, own⟩
      · exact Except.ok.inj (completed.symm.trans own)
      · rw [own] at completed
        cases completed
    rw [lower_eq]
    rcases Kind.gathers_collect expects with ⟨error, child, mem, first, all⟩ | ⟨each, all⟩
    · have members : flow.kind.isEmptyGroup = false := by
        rw [← Bool.not_eq_true, Kind.isEmptyGroup_iff]
        exact fun ⟨_, childless⟩ => List.ne_nil_of_mem mem childless
      refine .inr ⟨error, ?_, lowerStep_eq_first members all⟩
      rcases ih child mem with ⟨_, own⟩ | ⟨other, ⟨step, among, fault⟩, fails⟩
      · rw [own] at first
        cases first
      · obtain rfl : other = error := Except.error.inj (fails.symm.trans first)
        exact ⟨step, Tree.mem_steps.2 (.inr ⟨child, mem, among⟩), fault⟩
    · rw [← kind_outline] at all
      rcases lowerStep_cases all with ⟨own, completed⟩ | ⟨error, fault, fails⟩
      · refine .inl ⟨wellFormed_iff.2 fun step mem => ?_, completed⟩
        rcases Tree.mem_steps.1 mem with rfl | ⟨child, mem, among⟩
        · exact own
        · rcases ih child mem with ⟨below, _⟩ | ⟨error, _, fails⟩
          · exact wellFormed_iff.1 below step among
          · have := each child mem
            rw [fails] at this
            cases this
      · exact .inr ⟨error, ⟨flow, Tree.mem_steps.2 (.inl rfl), fault⟩, fails⟩

theorem lower_eq_ok_iff {flow : Flow} {tree : Node} :
    flow.lower = .ok tree ↔ flow.WellFormed ∧ tree = flow.outline := by
  rcases lower_cases flow with ⟨well, completed⟩ | ⟨error, ⟨step, mem, fault⟩, fails⟩
  · simp [completed, well, eq_comm]
  · have ill : ¬ flow.WellFormed := fun well => wellFormed_iff.1 well step mem error fault
    simp [fails, ill]

end Flow

end Workflow
