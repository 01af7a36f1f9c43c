import Workflow.Proofs.Contract.Availability
import Workflow.Proofs.Contract.Tracking

/-! What a step does to a ledger, without positions: which keys it uses, which ones it replaces, and
which writers it adds. -/
namespace Workflow

/-- The keys that are not removed. -/
def KeySet.without (keys removed : KeySet) : KeySet :=
  keys.filter (!removed.contains ·)

@[simp] theorem KeySet.mem_without {keys removed : KeySet} {key : String} :
    key ∈ keys.without removed ↔ key ∈ keys ∧ key ∉ removed := by
  rw [without, mem_filter, Bool.not_eq_true', ← Bool.not_eq_true, contains_iff]

theorem KeySet.not_isEmpty_iff {keys : KeySet} :
    (!keys.isEmpty) = true ↔ ∃ key, key ∈ keys := by
  rw [Bool.not_eq_true', isEmpty, List.isEmpty_eq_false_iff_exists_mem]
  rfl

namespace Liveness

/-- A writer with the keys under which its value may still be there. -/
structure Entry where
  writer : Writer
  live : KeySet

/-- The entry at the position has a value under the key. -/
def LiveAt (entries : List Entry) (key : String) (i : Nat) : Prop :=
  ∃ entry, entries[i]? = some entry ∧ key ∈ entry.live

/-- The ledger has the entries, each at its position. -/
structure Shows (ledger : Ledger) (entries : List Entry) : Prop where
  writers : ledger.writers = entries.map (·.writer)
  live : ∀ key i, i ∈ ledger.live.getD key [] ↔ LiveAt entries key i

/-- What a part of a tree does to the entries before it. It uses keys that have a value from before
it, and of other keys it leaves no value from before it. -/
structure Effect where
  uses : KeySet
  replaces : KeySet
  adds : List Entry

namespace Entry

/-- The writer is used if some condition holds. -/
def usedIf (entry : Entry) (condition : Bool) : Writer :=
  { entry.writer with consumed := entry.writer.consumed || condition }

/-- The entry has a value under one of the keys. -/
def has (entry : Entry) (keys : KeySet) : Bool :=
  keys.toList.any entry.live.contains

/-- An entry after a part of a tree. -/
def after (entry : Entry) (effect : Effect) : Entry :=
  ⟨entry.usedIf (entry.has effect.uses), entry.live.without effect.replaces⟩

/-- An entry after one of some parts of a tree. -/
def afterAny (entry : Entry) (effects : List Effect) : Entry :=
  ⟨entry.usedIf (effects.any (entry.has ·.uses)),
    entry.live.filter fun key => effects.any (!·.replaces.contains key)⟩

/-- An entry of which no value is left. -/
def gone (entry : Entry) : Entry :=
  { entry with live := ∅ }

/-- An entry whose values have been collected. -/
def collected (entry : Entry) : Entry :=
  ⟨entry.usedIf !entry.live.isEmpty, ∅⟩

end Entry

namespace Effect

def on (effect : Effect) (entries : List Entry) : List Entry :=
  entries.map (·.after effect) ++ effect.adds

def nothing : Effect := ⟨∅, ∅, []⟩

def asking (keys : KeySet) : Effect := ⟨keys, ∅, []⟩

def writing (node : Node) (terminal : Bool) : Effect :=
  if node.writes.isEmpty then nothing
  else ⟨∅, node.writes, [⟨⟨node.name, node.writes, terminal, false⟩, node.writes⟩]⟩

def andThen (first second : Effect) : Effect where
  uses := first.uses ∪ second.uses.without first.replaces
  replaces := first.replaces ∪ second.replaces
  adds := second.on first.adds

/-- The steps one after another: something comes after all but the last. -/
def inOrder : List (Bool → Effect) → Bool → Effect
  | [], _ => nothing
  | [last], after => last after
  | first :: rest, after => (first true).andThen (inOrder rest after)

/-- One of the steps, each from what is there before them. -/
def oneOf (effects : List Effect) : Effect where
  uses := .unions (effects.map (·.uses))
  replaces := Availability.common (effects.map (·.replaces))
  adds := effects.flatMap (·.adds)

/-- What the body leaves is collected, and what it replaces stays with the item. -/
def perItem (body : Effect) : Effect :=
  ⟨body.uses, ∅, body.adds.map (·.collected)⟩

def inside : Kind (Bool → Effect) → Bool → Effect
  | .sequence effects, after => inOrder effects after
  | .loop effect .., _ => effect true
  | .timeout effect _, after => effect after
  | .mapOver effect .., _ => (effect true).perItem
  | .parallel effects, _ => oneOf (effects.map (· true))
  | .fallback effects, after | .race effects, after => oneOf (effects.map (· after))
  | .route key rules otherwise, after =>
    oneOf ((Kind.route key rules otherwise).children.map (· after))
  | .leaf _, _ | .transform _, _ | .tap _, _ | .gate .., _ | .transfer .., _ | .capture _, _ =>
    nothing

def step (node : Node) (below : Kind (Bool → Effect)) (after : Bool) : Effect :=
  let effect := (asking node.demand).andThen (inside below after)
  if isWriter node.kind then effect.andThen (writing node !after) else effect

end Effect

/-- What a step does to a ledger, given whether anything comes after it. -/
def effectOf (node : Node) : Bool → Effect :=
  node.fold Effect.step

/-- Whatever entries a ledger shows, the change has the effect on them. -/
def Acts (change : Ledger → Ledger) (effect : Effect) : Prop :=
  ∀ ledger entries, Shows ledger entries → Shows (change ledger) (effect.on entries)

section

variable {ledger merged : Ledger} {entries added : List Entry} {entry : Entry}
  {first second effect : Effect} {keys : KeySet} {key : String} {i : Nat}

theorem effectOf_eq (node : Node) : effectOf node = Effect.step node (node.kind.map effectOf) :=
  Tree.fold_eq Effect.step node

namespace Entry

theorem ext_mem {left right : Entry} (writer : left.writer = right.writer)
    (live : ∀ key, key ∈ left.live ↔ key ∈ right.live) : left = right := by
  obtain ⟨_, _⟩ := left
  obtain ⟨_, _⟩ := right
  exact Entry.mk.injEq .. ▸ ⟨writer, KeySet.ext_mem live⟩

@[simp] theorem has_iff : entry.has keys = true ↔ ∃ key ∈ keys, key ∈ entry.live := by
  simp [has, KeySet.mem_def]

@[simp] theorem has_empty (entry : Entry) : entry.has ∅ = false := rfl

@[simp] theorem has_gone (entry : Entry) (keys : KeySet) : entry.gone.has keys = false := by
  rw [← Bool.not_eq_true, has_iff]
  simp [gone]

@[simp] theorem mem_live_after :
    key ∈ (entry.after effect).live ↔ key ∈ entry.live ∧ key ∉ effect.replaces := by
  simp [after]

@[simp] theorem usedIf_false (entry : Entry) : entry.usedIf false = entry.writer := by
  simp [usedIf]

theorem usedIf_mk (first second : Bool) (live : KeySet) :
    Entry.usedIf ⟨entry.usedIf first, live⟩ second = entry.usedIf (first || second) := by
  simp [usedIf, Bool.or_assoc]

theorem after_nothing (entry : Entry) : entry.after .nothing = entry := by
  refine ext_mem (usedIf_false entry) fun key => ?_
  simp [Effect.nothing]

theorem after_andThen (entry : Entry) (first second : Effect) :
    entry.after (first.andThen second) = (entry.after first).after second := by
  refine ext_mem ?_ fun key => ?_
  · have used : entry.has (first.andThen second).uses =
        (entry.has first.uses || (entry.after first).has second.uses) := by
      rw [Bool.eq_iff_iff]
      simp only [Effect.andThen, has_iff, Bool.or_eq_true, mem_live_after, KeySet.mem_union,
        KeySet.mem_without]
      grind
    exact (congrArg entry.usedIf used).trans (usedIf_mk ..).symm
  · simp [Effect.andThen, and_assoc]

end Entry

namespace Effect

theorem on_nothing (entries : List Entry) : nothing.on entries = entries := by
  rw [on, List.map_congr_left fun entry _ => Entry.after_nothing entry]
  simp [nothing]

theorem on_andThen (first second : Effect) (entries : List Entry) :
    (first.andThen second).on entries = second.on (first.on entries) := by
  have each : entries.map (·.after (first.andThen second)) =
      (entries.map (·.after first)).map (·.after second) := by
    simp only [Entry.after_andThen, List.map_map, Function.comp_def]
  rw [on, each, on, on, List.map_append, List.append_assoc]
  rfl

theorem asking_cons (key : String) (keys : List String) :
    (asking (.singleton key)).andThen (asking (.ofList keys)) = asking (.ofList (key :: keys)) := by
  have both : KeySet.singleton key ∪ (KeySet.ofList keys).without ∅ = .ofList (key :: keys) := by
    ext other
    simp
  rw [andThen, asking, asking, both]
  rfl

end Effect

theorem liveAt_map {f : Entry → Entry} :
    LiveAt (entries.map f) key i ↔ ∃ entry, entries[i]? = some entry ∧ key ∈ (f entry).live := by
  simp [LiveAt, List.getElem?_map]

theorem liveAt_append :
    LiveAt (entries ++ added) key i ↔
      LiveAt entries key i ∨ ∃ j, i = entries.length + j ∧ LiveAt added key j := by
  unfold LiveAt
  rcases Nat.lt_or_ge i entries.length with old | new
  · rw [List.getElem?_append_left old]
    have none : ∀ j, i ≠ entries.length + j := by omega
    simp [none]
  · obtain ⟨j, rfl⟩ := Nat.exists_eq_add_of_le new
    simp [List.getElem?_append_right]

theorem liveAt_singleton : LiveAt [entry] key i ↔ i = 0 ∧ key ∈ entry.live := by
  cases i <;> simp [LiveAt]

theorem not_liveAt_gone : ¬ LiveAt (entries.map (·.gone)) key i := by
  simp [liveAt_map, Entry.gone]

theorem Shows.live_iff (shows : Shows ledger entries) (at_ : entries[i]? = some entry) :
    i ∈ ledger.live.getD key [] ↔ key ∈ entry.live := by
  rw [shows.live, LiveAt, at_]
  simp

theorem Shows.length_writers (shows : Shows ledger entries) :
    ledger.writers.length = entries.length := by
  rw [shows.writers, List.length_map]

/-- Marking positions says of the entries there that they are used. -/
theorem mark_writers {positions : List Nat} {others : List Entry}
    (length : others.length = entries.length)
    (h : ∀ (i : Nat) (entry : Entry), entries[i]? = some entry →
      others[i]?.map (·.writer) = some (entry.usedIf (positions.contains i))) :
    mark positions (entries.map (·.writer)) = others.map (·.writer) := by
  refine List.ext_getElem? fun i => ?_
  simp only [mark, List.getElem?_mapIdx, List.getElem?_map]
  cases at_ : entries[i]? with
  | none =>
    rw [List.getElem?_eq_none_iff, ← length, ← List.getElem?_eq_none_iff] at at_
    simp [at_]
  | some entry =>
    rw [h i entry at_]
    cases positions.contains i <;> simp [Entry.usedIf]

theorem Acts.andThen {change next : Ledger → Ledger} (h : Acts change first)
    (h' : Acts next second) : Acts (fun ledger => next (change ledger)) (first.andThen second) := by
  intro ledger entries shows
  rw [Effect.on_andThen]
  exact h' _ _ (h _ _ shows)

theorem acts_nothing : Acts id .nothing := by
  intro ledger entries shows
  rwa [Effect.on_nothing]

theorem acts_consume (key : String) : Acts (consume · key) (.asking (.singleton key)) := by
  intro ledger entries shows
  have on : (Effect.asking (.singleton key)).on entries =
      entries.map (·.after (.asking (.singleton key))) := List.append_nil _
  rw [on]
  constructor
  · change mark (ledger.live.getD key []) ledger.writers = _
    rw [shows.writers]
    refine mark_writers (List.length_map _) fun i entry at_ => ?_
    have used : entry.has (.singleton key) = (ledger.live.getD key []).contains i := by
      rw [Bool.eq_iff_iff, List.contains_iff_mem, shows.live_iff at_]
      simp
    rw [List.getElem?_map, at_, ← used]
    rfl
  · intro other i
    change i ∈ ledger.live.getD other [] ↔ _
    rw [liveAt_map, shows.live]
    simp [Effect.asking, LiveAt]

theorem acts_consumeAll (keys : KeySet) : Acts (consumeAll keys) (.asking keys) := by
  have each (keys : List String) : Acts (keys.foldl consume) (.asking (.ofList keys)) := by
    induction keys with
    | nil => exact acts_nothing
    | cons key keys ih =>
      rw [← Effect.asking_cons]
      exact (acts_consume key).andThen ih
  have all : KeySet.ofList keys.toList = keys := by
    ext key
    rw [KeySet.mem_ofList, KeySet.mem_def]
  have acts := each keys.toList
  rwa [all] at acts

theorem acts_record (node : Node) (terminal : Bool) :
    Acts (record node terminal) (.writing node terminal) := by
  intro ledger entries shows
  by_cases empty : node.writes.isEmpty = true
  · rw [record, if_pos empty, Effect.writing, if_pos empty, Effect.on_nothing]
    exact shows
  · rw [record, if_neg empty, Effect.writing, if_neg empty]
    constructor
    · simp [Effect.on, Entry.after, shows.writers]
    · intro key i
      simp only [getD_foldl_insert, Effect.on, liveAt_append, liveAt_map, liveAt_singleton,
        Entry.mem_live_after, List.length_map, shows.length_writers]
      by_cases mem : key ∈ node.writes
      · simp [mem]
      · simp [mem, shows.live, LiveAt]

theorem Entry.mem_live_afterAny {effects : List Effect} :
    key ∈ (entry.afterAny effects).live ↔
      key ∈ entry.live ∧ ∃ effect ∈ effects, key ∉ effect.replaces := by
  simp only [afterAny, KeySet.mem_filter, List.any_eq_true, Bool.not_eq_true', ← Bool.not_eq_true,
    KeySet.contains_iff]

theorem Entry.afterAny_eq {effects : List Effect} (nonempty : effects ≠ []) (entry : Entry) :
    entry.afterAny effects = entry.after (.oneOf effects) := by
  refine ext_mem ?_ fun key => ?_
  · refine congrArg entry.usedIf (Bool.eq_iff_iff.2 ?_)
    simp only [List.any_eq_true, has_iff, Effect.oneOf, KeySet.mem_unions, List.mem_map]
    grind
  · rw [mem_live_afterAny, mem_live_after]
    simp [Effect.oneOf, Availability.mem_common, nonempty]

/-- With the live values put back, the entries that have come since have none. -/
theorem Shows.restart {f : Entry → Entry} (shows : Shows ledger entries)
    (now : Shows merged (entries.map f ++ added)) :
    Shows ⟨merged.writers, ledger.live⟩
      (entries.map (fun entry => ⟨(f entry).writer, entry.live⟩) ++ added.map (·.gone)) := by
  constructor
  · simp [now.writers, Entry.gone, Function.comp_def]
  · intro key i
    rw [shows.live, liveAt_append, liveAt_map]
    simp only [not_liveAt_gone, and_false, exists_false, or_false]
    rfl

/-- A branch begins with the writers of those before it, and with the values that the first one
finds. Afterwards the values are those of one branch or another. -/
theorem shows_branch {change : Ledger → Ledger} {effects : List Effect}
    (shows : Shows ledger entries) (acts : Acts change effect)
    (merges : Shows merged (entries.map (·.afterAny effects) ++ added)) :
    let result := change ⟨merged.writers, ledger.live⟩
    Shows ⟨result.writers, unite merged.live result.live⟩
      (entries.map (·.afterAny (effects ++ [effect])) ++ (added ++ effect.adds)) := by
  have through := acts _ _ (shows.restart merges)
  intro result
  constructor
  · have writer (entry : Entry) : (entry.afterAny (effects ++ [effect])).writer =
        (Entry.after ⟨(entry.afterAny effects).writer, entry.live⟩ effect).writer := by
      simp only [Entry.afterAny, Entry.after, Entry.usedIf_mk, List.any_append, List.any_cons,
        List.any_nil, Bool.or_false]
      rfl
    have unused (entry : Entry) : (entry.gone.after effect).writer = entry.writer := by
      rw [Entry.after, Entry.has_gone, Entry.usedIf_false]
      rfl
    rw [through.writers]
    simp only [Effect.on, List.map_append, List.map_map, List.append_assoc, Function.comp_def,
      writer, unused]
  · intro key i
    rw [mem_unite, merges.live, through.live, ← List.append_assoc]
    simp only [Effect.on, List.map_append, List.map_map, liveAt_append, liveAt_map, 
      List.length_append, List.length_map, Function.comp_def, Entry.mem_live_after,
      Entry.mem_live_afterAny, Entry.gone, KeySet.not_mem_empty, false_and, and_false, exists_false,
      List.mem_append, List.mem_singleton, or_and_right, and_or_left, exists_or, exists_eq_left,
      or_false, or_assoc, or_left_comm]

theorem shows_branches {ι : Type} {change : ι → Pass} {effects : ι → Effect} {after : Bool}
    (shows : Shows ledger entries) {parts : List ι} {before : List Effect}
    (acts : ∀ part ∈ parts, Acts (change part after) (effects part))
    (merges : Shows merged (entries.map (·.afterAny before) ++ before.flatMap (·.adds))) :
    Shows
      ((parts.map change).foldl (fun (merged : Ledger) pass =>
        let result := pass after ⟨merged.writers, ledger.live⟩
        ⟨result.writers, unite merged.live result.live⟩) merged)
      (entries.map (·.afterAny (before ++ parts.map effects)) ++
        (before ++ parts.map effects).flatMap (·.adds)) := by
  induction parts generalizing merged before with
  | nil => simpa using merges
  | cons part parts ih =>
    have next := shows_branch shows (acts part List.mem_cons_self) merges
    have adds : before.flatMap (·.adds) ++ (effects part).adds =
        (before ++ [effects part]).flatMap (·.adds) := by simp
    rw [adds] at next
    simpa using ih (fun other mem => acts other (List.mem_cons_of_mem part mem)) next

theorem acts_branches {ι : Type} {change : ι → Pass} {effects : ι → Effect} {after : Bool}
    {parts : List ι} (acts : ∀ part ∈ parts, Acts (change part after) (effects part)) :
    Acts (branches (parts.map change) after) (.oneOf (parts.map effects)) := by
  intro ledger entries shows
  by_cases empty : parts = []
  · subst empty
    exact acts_nothing ledger entries shows
  · have nonempty : parts.map effects ≠ [] := by simpa using empty
    have begun : Shows ⟨ledger.writers, ∅⟩
        (entries.map (·.afterAny []) ++ ([] : List Effect).flatMap (·.adds)) := by
      constructor
      · simp [shows.writers, Entry.afterAny]
      · intro key i
        simp [liveAt_map, Entry.mem_live_afterAny, KeyMap.getD]
    have all := shows_branches shows acts begun
    rw [branches, if_neg (by simpa using empty), Effect.on,
      List.map_congr_left fun entry _ => (Entry.afterAny_eq nonempty entry).symm]
    exact all

theorem liveAt_congr {others : List Entry} (h : entries.map (·.live) = others.map (·.live)) :
    LiveAt entries key i ↔ LiveAt others key i := by
  have by_live (entries : List Entry) :
      LiveAt entries key i ↔ ∃ live, (entries.map (·.live))[i]? = some live ∧ key ∈ live := by
    simp [LiveAt, List.getElem?_map]
  rw [by_live, by_live, h]

theorem Entry.live_after_perItem (entry : Entry) (body : Effect) :
    (entry.after body.perItem).live = entry.live := by
  ext key
  simp [Effect.perItem]

theorem acts_perItem {body : Pass} (acts : Acts (body true) effect) :
    Acts (perItem body) effect.perItem := by
  intro ledger entries shows
  have through := acts ledger entries shows
  have again := shows.restart through
  have on : effect.perItem.on entries =
      entries.map (·.after effect.perItem) ++ effect.adds.map (·.collected) := rfl
  rw [on]
  constructor
  · simp only [perItem, through.writers]
    refine mark_writers (by simp [Effect.on]) fun i entry at_ => ?_
    have fed : ((body true ledger).live.values.flatten.filter
        fun i => ledger.writers.length ≤ i).contains i =
          (decide (entries.length ≤ i) && !entry.live.isEmpty) := by
      rw [Bool.eq_iff_iff, List.contains_iff_mem, List.mem_filter, mem_values,
        shows.length_writers, and_comm, Bool.and_eq_true, KeySet.not_isEmpty_iff]
      simp only [through.live_iff at_]
    rw [fed]
    rcases Nat.lt_or_ge i entries.length with old | new
    · rw [Effect.on, List.getElem?_append_left (by simpa using old), List.getElem?_map] at at_
      obtain ⟨earlier, found, rfl⟩ := Option.map_eq_some_iff.1 at_
      rw [decide_eq_false (by omega), Bool.false_and, Entry.usedIf_false,
        List.getElem?_append_left (by simpa using old), List.getElem?_map, found]
      rfl
    · rw [Effect.on, List.getElem?_append_right (by simpa using new), List.length_map] at at_
      rw [decide_eq_true new, Bool.true_and, List.getElem?_append_right (by simpa using new),
        List.length_map, List.getElem?_map, at_]
      rfl
  · intro key i
    refine (again.live key i).trans (liveAt_congr ?_)
    simp only [List.map_append, List.map_map, Function.comp_def, Entry.live_after_perItem]
    rfl

theorem acts_inOrder {ι : Type} {change : ι → Pass} {effects : ι → Bool → Effect} {parts : List ι}
    (acts : ∀ part ∈ parts, ∀ after, Acts (change part after) (effects part after)) (after : Bool) :
    Acts (inOrder (parts.map change) after) (.inOrder (parts.map effects) after) := by
  induction parts with
  | nil => exact acts_nothing
  | cons first rest ih =>
    have others := ih fun part mem => acts part (List.mem_cons_of_mem first mem)
    cases rest with
    | nil => exact acts first List.mem_cons_self after
    | cons second rest => exact (acts first List.mem_cons_self true).andThen others

theorem acts_inside {kind : Kind Node}
    (acts : ∀ child ∈ kind.children, ∀ after, Acts (pass child after) (effectOf child after))
    (after : Bool) :
    Acts (inside (kind.map pass) after) (.inside (kind.map effectOf) after) := by
  cases kind with
  | sequence steps => exact acts_inOrder acts after
  | parallel steps =>
    rw [Kind.map, Kind.map, Effect.inside, List.map_map]
    exact acts_branches fun step mem => acts step mem true
  | fallback steps | race steps =>
    rw [Kind.map, Kind.map, Effect.inside, List.map_map]
    exact acts_branches fun step mem => acts step mem after
  | route key rules otherwise =>
    have passes := Kind.children_map pass (.route key rules otherwise)
    have effects := Kind.children_map effectOf (.route key rules otherwise)
    rw [Kind.map] at passes effects ⊢
    rw [Kind.map, inside, Effect.inside, passes, effects, List.map_map]
    exact acts_branches fun step mem => acts step mem after
  | loop body _ _ => exact acts body (List.mem_singleton_self body) true
  | timeout body _ => exact acts body (List.mem_singleton_self body) after
  | mapOver body _ _ _ => exact acts_perItem (acts body (List.mem_singleton_self body) true)
  | leaf | transform | tap | gate | transfer | capture => exact acts_nothing

/-- Whatever the ledger, a step changes it as its effect says. -/
theorem acts_pass (root : Node) (after : Bool) :
    Acts (pass root after) (effectOf root after) := by
  induction root using Tree.induction generalizing after with
  | step root ih =>
    have below := (acts_consumeAll (Node.demand root)).andThen (acts_inside ih after)
    intro ledger entries shows
    rw [pass_eq, effectOf_eq]
    by_cases writer : isWriter root.kind = true
    · simp only [step, Effect.step, if_pos writer]
      exact below.andThen (acts_record root !after) ledger entries shows
    · simp only [step, Effect.step, if_neg writer]
      exact below ledger entries shows

theorem deadOutputs_eq_adds (root : Node) :
    deadOutputs root =
      (((effectOf root false).adds.map (·.writer)).filter
        fun writer => !writer.terminal && !writer.consumed).map deadOutput := by
  have none : Shows .empty [] := by
    constructor
    · rfl
    · intro key i
      simp [Ledger.empty, KeyMap.getD, LiveAt]
  have shows := acts_pass root false _ _ none
  rw [deadOutputs, shows.writers]
  rfl

end

end Liveness

end Workflow
