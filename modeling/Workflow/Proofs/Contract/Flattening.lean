import Workflow.Proofs.Contract.Reordering

/-! Plain groups in groups of their kind, and plain timeouts. The contract check does not see whether
they are there. -/
namespace Workflow

/-- One wrapper less, which has the name and declares nothing: a group in a group of its kind gives
way to its members, a timeout to its body. -/
inductive Tree.Flattens {ν : Type} : Tree ν → Tree ν → ν → Prop where
  | sequence {name wrapper : ν} {contract : Contract} {before members after : List (Tree ν)} :
      members ≠ [] →
      Flattens
        (.mk name contract (.sequence (before ++ .mk wrapper .empty (.sequence members) :: after)))
        (.mk name contract (.sequence (before ++ (members ++ after)))) wrapper
  | parallel {name wrapper : ν} {contract : Contract} {before members after : List (Tree ν)} :
      members ≠ [] →
      Flattens
        (.mk name contract (.parallel (before ++ .mk wrapper .empty (.parallel members) :: after)))
        (.mk name contract (.parallel (before ++ (members ++ after)))) wrapper
  | fallback {name wrapper : ν} {contract : Contract} {before members after : List (Tree ν)} :
      members ≠ [] →
      Flattens
        (.mk name contract (.fallback (before ++ .mk wrapper .empty (.fallback members) :: after)))
        (.mk name contract (.fallback (before ++ (members ++ after)))) wrapper
  | timeout {wrapper : ν} {body : Tree ν} {deadline : UInt64} :
      Flattens (.mk wrapper .empty (.timeout body deadline)) body wrapper

namespace Availability

section

variable {members : List Pass}

theorem inOrder_append (first second : List Pass) :
    inOrder (first ++ second) = inOrder [inOrder first, inOrder second] := by
  funext available
  induction first generalizing available with
  | nil => simp [inOrder]
  | cons pass rest ih =>
    have later := ih (pass available).available
    simp only [inOrder, List.append_nil] at later
    simp only [List.cons_append, inOrder, later, List.append_assoc, List.append_nil]

theorem inOrder_flatten (before members after : List Pass) :
    inOrder (before ++ inOrder members :: after) = inOrder (before ++ (members ++ after)) := by
  rw [inOrder_append before, inOrder_append before, inOrder_append members]
  funext available
  simp [inOrder]

theorem mem_sideBySide {passes : List Pass} {available : KeySet} {key : String} :
    key ∈ (sideBySide passes available).available ↔
      key ∈ available ∨ ∃ pass ∈ passes, key ∈ (pass available).available := by
  simp [sideBySide]

theorem mem_oneOf {passes : List Pass} {available : KeySet} {key : String} :
    key ∈ (oneOf passes available).available ↔
      key ∈ available ∨ passes ≠ [] ∧ ∀ pass ∈ passes, key ∈ (pass available).available := by
  simp [oneOf, mem_common]

theorem sideBySide_flatten (before members after : List Pass) :
    sideBySide (before ++ sideBySide members :: after) =
      sideBySide (before ++ (members ++ after)) := by
  funext available
  have keys : (sideBySide (before ++ sideBySide members :: after) available).available =
      (sideBySide (before ++ (members ++ after)) available).available := by
    ext key
    by_cases present : key ∈ available
    · simp [mem_sideBySide, present]
    · simp [mem_sideBySide, present, or_and_right, exists_or]
  have found : (sideBySide (before ++ sideBySide members :: after) available).diagnostics =
      (sideBySide (before ++ (members ++ after)) available).diagnostics := by
    simp [sideBySide]
  exact congrArg₂ Outcome.mk keys found

theorem oneOf_flatten (before after : List Pass) (nonempty : members ≠ []) :
    oneOf (before ++ oneOf members :: after) = oneOf (before ++ (members ++ after)) := by
  funext available
  have keys : (oneOf (before ++ oneOf members :: after) available).available =
      (oneOf (before ++ (members ++ after)) available).available := by
    ext key
    by_cases present : key ∈ available
    · simp [mem_oneOf, present]
    · simp [mem_oneOf, present, nonempty, or_imp, forall_and]
  have found : (oneOf (before ++ oneOf members :: after) available).diagnostics =
      (oneOf (before ++ (members ++ after)) available).diagnostics := by
    simp [oneOf]
  exact congrArg₂ Outcome.mk keys found

theorem pass_eq_of_looksLike {node other : Node} (look : node.LooksLike other)
    (below : inside (node.kind.map pass) = inside (other.kind.map pass)) :
    pass node = pass other := by
  rw [pass_eq, pass_eq, step, step, look.asks, look.writes, below]

/-- A step that asks for nothing and writes nothing is what happens below it. -/
theorem pass_of_plain {node : Node} (asks : demandErrors node = fun _ => [])
    (writes : ownWrites node = fun available => ⟨available, []⟩) :
    pass node = inside (node.kind.map pass) := by
  funext available
  rw [pass_eq, step, asks, writes]
  simp [inOrder]

theorem pass_of_flattens {part flat : Node} {wrapper : String} (h : part.Flattens flat wrapper) :
    pass part = pass flat := by
  cases h with
  | @sequence name wrapper contract before members after _ =>
    refine pass_eq_of_looksLike ⟨rfl, rfl, rfl, rfl, rfl⟩ ?_
    have inner : pass (.mk wrapper .empty (.sequence members)) = inOrder (members.map pass) :=
      pass_of_plain rfl rfl
    have flat := inOrder_flatten (before.map pass) (members.map pass) (after.map pass)
    simpa [Tree.kind, Kind.map, inside, inner] using flat
  | @parallel name wrapper contract before members after _ =>
    refine pass_eq_of_looksLike ⟨rfl, rfl, rfl, rfl, rfl⟩ ?_
    have inner : pass (.mk wrapper .empty (.parallel members)) = sideBySide (members.map pass) :=
      pass_of_plain rfl rfl
    have flat := sideBySide_flatten (before.map pass) (members.map pass) (after.map pass)
    simpa [Tree.kind, Kind.map, inside, inner] using flat
  | @fallback name wrapper contract before members after nonempty =>
    refine pass_eq_of_looksLike ⟨rfl, rfl, rfl, rfl, rfl⟩ ?_
    have inner : pass (.mk wrapper .empty (.fallback members)) = oneOf (members.map pass) :=
      pass_of_plain rfl rfl
    have mapped : members.map pass ≠ [] := mt List.map_eq_nil_iff.1 nonempty
    have flat := oneOf_flatten (before.map pass) (after.map pass) mapped
    simpa [Tree.kind, Kind.map, inside, inner] using flat
  | timeout => exact pass_of_plain rfl rfl

theorem pass_congr {name : String} {contract : Contract} {pairs : Kind (Node × Node)}
    (h : ∀ pair ∈ pairs.children, pass pair.1 = pass pair.2) :
    pass (.mk name contract (pairs.map Prod.fst)) =
      pass (.mk name contract (pairs.map Prod.snd)) := by
  refine pass_eq_of_looksLike (Tree.looksLike_map ..) ?_
  have below : pairs.map (pass ∘ Prod.fst) = pairs.map (pass ∘ Prod.snd) := Kind.map_congr h
  rw [Tree.kind, Tree.kind, Kind.map_map, Kind.map_map, below]

end

end Availability

namespace Liveness

section

variable {first second : Effect}

theorem Effect.ext_mem (uses : ∀ key, key ∈ first.uses ↔ key ∈ second.uses)
    (replaces : ∀ key, key ∈ first.replaces ↔ key ∈ second.replaces)
    (adds : first.adds = second.adds) : first = second := by
  obtain ⟨_, _, _⟩ := first
  obtain ⟨_, _, _⟩ := second
  rw [Effect.mk.injEq]
  exact ⟨KeySet.ext_mem uses, KeySet.ext_mem replaces, adds⟩

theorem Effect.nothing_andThen (effect : Effect) : nothing.andThen effect = effect := by
  refine ext_mem (fun key => ?_) (fun key => ?_) rfl
  · simp [andThen, nothing]
  · simp [andThen, nothing]

theorem Effect.andThen_assoc (first second third : Effect) :
    (first.andThen second).andThen third = first.andThen (second.andThen third) := by
  refine ext_mem (fun key => ?_) (fun key => ?_) ?_
  · simp only [andThen, KeySet.mem_union, KeySet.mem_without]
    tauto
  · simp only [andThen, KeySet.mem_union, or_assoc]
  · exact (on_andThen second third first.adds).symm

theorem Effect.inOrder_append (first : List (Bool → Effect)) {second : List (Bool → Effect)}
    (nonempty : second ≠ []) (flag : Bool) :
    inOrder (first ++ second) flag = (inOrder first true).andThen (inOrder second flag) := by
  induction first with
  | nil => exact (nothing_andThen _).symm
  | cons effect rest ih =>
    cases rest with
    | nil =>
      obtain ⟨next, others, rfl⟩ := List.exists_cons_of_ne_nil nonempty
      rfl
    | cons next others =>
      change (effect true).andThen (inOrder (next :: others ++ second) flag) =
        ((effect true).andThen (inOrder (next :: others) true)).andThen (inOrder second flag)
      rw [ih, andThen_assoc]

theorem Effect.inOrder_flatten (before after : List (Bool → Effect))
    {members : List (Bool → Effect)} (nonempty : members ≠ []) :
    inOrder (before ++ inOrder members :: after) = inOrder (before ++ (members ++ after)) := by
  funext flag
  have joined : members ++ after ≠ [] := List.append_ne_nil_of_left_ne_nil nonempty after
  rw [inOrder_append before (List.cons_ne_nil _ _), inOrder_append before joined]
  cases after with
  | nil => rw [List.append_nil, inOrder]
  | cons next others => rw [inOrder_append members (List.cons_ne_nil _ _)]; rfl

theorem Effect.oneOf_flatten (before after : List Effect) {members : List Effect}
    (nonempty : members ≠ []) :
    oneOf (before ++ oneOf members :: after) = oneOf (before ++ (members ++ after)) := by
  refine ext_mem (fun key => ?_) (fun key => ?_) ?_
  · simp [oneOf, or_and_right, exists_or]
  · simp [oneOf, Availability.mem_common, nonempty, or_imp, forall_and]
  · simp [oneOf]

theorem effectOf_eq_of_looksLike {node other : Node} (look : node.LooksLike other)
    (below : Effect.inside (node.kind.map effectOf) = Effect.inside (other.kind.map effectOf)) :
    effectOf node = effectOf other := by
  funext flag
  rw [effectOf_eq, effectOf_eq, Effect.step, Effect.step, look.demand, look.writer, look.records,
    below]

/-- A step that asks for nothing and is no writer is what happens below it. -/
theorem effectOf_of_plain {node : Node} (asks : Node.demand node = ∅)
    (group : isWriter node.kind = false) :
    effectOf node = Effect.inside (node.kind.map effectOf) := by
  funext flag
  rw [effectOf_eq, Effect.step, asks, group]
  exact Effect.nothing_andThen _

theorem effectOf_of_flattens {part flat : Node} {wrapper : String}
    (h : part.Flattens flat wrapper) : effectOf part = effectOf flat := by
  cases h with
  | @sequence name wrapper contract before members after nonempty =>
    refine effectOf_eq_of_looksLike ⟨rfl, rfl, rfl, rfl, rfl⟩ ?_
    have inner : effectOf (.mk wrapper .empty (.sequence members)) =
        Effect.inOrder (members.map effectOf) := effectOf_of_plain rfl rfl
    have mapped : members.map effectOf ≠ [] := mt List.map_eq_nil_iff.1 nonempty
    have flat := Effect.inOrder_flatten (before.map effectOf) (after.map effectOf) mapped
    funext flag
    simpa [Tree.kind, Kind.map, Effect.inside, inner] using congrFun flat flag
  | @parallel name wrapper contract before members after nonempty =>
    refine effectOf_eq_of_looksLike ⟨rfl, rfl, rfl, rfl, rfl⟩ ?_
    have inner (flag : Bool) : effectOf (.mk wrapper .empty (.parallel members)) flag =
        .oneOf ((members.map effectOf).map (· true)) := congrFun (effectOf_of_plain rfl rfl) flag
    have mapped : (members.map effectOf).map (· true) ≠ [] := by simpa using nonempty
    have flat := Effect.oneOf_flatten ((before.map effectOf).map (· true))
      ((after.map effectOf).map (· true)) mapped
    funext flag
    simpa [Tree.kind, Kind.map, Effect.inside, inner] using flat
  | @fallback name wrapper contract before members after nonempty =>
    refine effectOf_eq_of_looksLike ⟨rfl, rfl, rfl, rfl, rfl⟩ ?_
    have inner (flag : Bool) : effectOf (.mk wrapper .empty (.fallback members)) flag =
        .oneOf ((members.map effectOf).map (· flag)) := congrFun (effectOf_of_plain rfl rfl) flag
    funext flag
    have mapped : (members.map effectOf).map (· flag) ≠ [] := by simpa using nonempty
    have flat := Effect.oneOf_flatten ((before.map effectOf).map (· flag))
      ((after.map effectOf).map (· flag)) mapped
    simpa [Tree.kind, Kind.map, Effect.inside, inner] using flat
  | timeout => exact effectOf_of_plain rfl rfl

theorem effectOf_congr {name : String} {contract : Contract} {pairs : Kind (Node × Node)}
    (h : ∀ pair ∈ pairs.children, effectOf pair.1 = effectOf pair.2) :
    effectOf (.mk name contract (pairs.map Prod.fst)) =
      effectOf (.mk name contract (pairs.map Prod.snd)) := by
  refine effectOf_eq_of_looksLike (Tree.looksLike_map ..) ?_
  have below : pairs.map (effectOf ∘ Prod.fst) = pairs.map (effectOf ∘ Prod.snd) :=
    Kind.map_congr h
  rw [Tree.kind, Tree.kind, Kind.map_map, Kind.map_map, below]

end

end Liveness

/-- The contract check finds the same, in the same order, without a wrapper. -/
theorem checkWith_of_flattens {root part flat : Node} {place : Place} {wrapper : String}
    (at_ : root.at? place = some part) (h : part.Flattens flat wrapper) (seed : KeySet) :
    checkWith (root.replaceAt place flat) seed = checkWith root seed := by
  have found := Tree.related_replaceAt
    (r := fun step other => Availability.pass step = Availability.pass other)
    (fun _ => rfl) (fun _ _ _ => Availability.pass_congr) at_ (Availability.pass_of_flattens h)
  have effects := Tree.related_replaceAt
    (r := fun step other => Liveness.effectOf step = Liveness.effectOf other)
    (fun _ => rfl) (fun _ _ _ => Liveness.effectOf_congr) at_ (Liveness.effectOf_of_flattens h)
  rw [checkWith, checkWith, Liveness.deadOutputs_eq_adds, Liveness.deadOutputs_eq_adds, found,
    effects]

end Workflow
