import CounterLang.Proofs.Unrolling

/-! What a run shows is its store and its fault, not its counts. Where two balanced
programs show the same on every store, one may stand for the other in the middle of any
statements: inside of loops, closed or not, before and behind anything. -/
namespace CounterLang
open Nesting

def Ending.fault? : Ending → Option Fault
  | .done _ => none
  | .failed fault => some fault

def Outcome.shown (outcome : Outcome) : Store × Option Fault :=
  (outcome.store, outcome.ending.fault?)

namespace Progress

def outcome : Progress → Outcome
  | .through store report => ⟨store, .done report⟩
  | .stopped store fault => ⟨store, .failed fault⟩

def shown (progress : Progress) : Store × Option Fault := progress.outcome.shown

@[simp] theorem afterShown (report : Report) (progress : Progress) :
    (progress.after report).shown = progress.shown := by
  cases progress <;> rfl

theorem throughShown {progress : Progress} {store : Store} :
    progress.shown = (store, none) ↔ ∃ report, progress = .through store report := by
  cases progress <;> simp [shown, outcome, Outcome.shown, Ending.fault?]

theorem stoppedShown {progress : Progress} {store : Store} {fault : Fault} :
    progress.shown = (store, some fault) ↔ progress = .stopped store fault := by
  cases progress <;> simp [shown, outcome, Outcome.shown, Ending.fault?]

theorem thenShown {next onward : Store → Progress → Prop} {first other progress : Progress}
    (same : other.shown = first.shown) (h : first.Then next progress)
    (follows : ∀ ⦃middle later⦄, next middle later →
      ∃ final, onward middle final ∧ final.shown = later.shown) :
    ∃ final, other.Then onward final ∧ final.shown = progress.shown := by
  cases h with
  | through found =>
    obtain ⟨report, rfl⟩ := throughShown.mp same
    obtain ⟨final, behind, shown⟩ := follows found
    exact ⟨_, .through behind, by simp only [afterShown, shown]⟩
  | stopped =>
    rw [stoppedShown.mp same]
    exact ⟨_, .stopped, rfl⟩

end Progress

def Task.Follows (first second : Task) : Prop :=
  ∀ ⦃store progress⦄, Evaluates first store progress →
    ∃ other, Evaluates second store other ∧ other.shown = progress.shown

section Shown

variable {first second : Task} {store last : Store}

theorem followsThrough {report : Report} (follows : first.Follows second)
    (h : Evaluates first store (.through last report)) :
    ∃ more, Evaluates second store (.through last more) := by
  obtain ⟨other, found, shown⟩ := follows h
  obtain ⟨more, same⟩ := Progress.throughShown.mp shown
  exact ⟨more, same ▸ found⟩

theorem followsStopped {fault : Fault} (follows : first.Follows second)
    (h : Evaluates first store (.stopped last fault)) :
    Evaluates second store (.stopped last fault) := by
  obtain ⟨other, found, shown⟩ := follows h
  exact Progress.stoppedShown.mp shown ▸ found

end Shown

namespace Block

abbrev Follows (first second : Block) : Prop := Task.Follows (.block first) (.block second)

variable {first second front behind : Block}

theorem followsSelf : first.Follows first := fun _ _ h => ⟨_, h, rfl⟩

theorem followsAppend (before : first.Follows second) (after : front.Follows behind) :
    (first.append front).Follows (second.append behind) := by
  intro store progress h
  obtain ⟨progress, inner, onward⟩ := evaluatesAppend.mp h
  obtain ⟨other, found, same⟩ := before inner
  obtain ⟨final, later, shown⟩ := Progress.thenShown same onward after
  exact ⟨final, evaluatesAppend.mpr ⟨other, found, later⟩, shown⟩

theorem followsSimple (statement : Statement) (after : front.Follows behind) :
    (simple statement front).Follows (simple statement behind) := by
  have alone : (simple statement .done).Follows (simple statement .done) := followsSelf
  exact followsAppend alone after

/- The passes of a loop go on one by one, so this goes by the evaluation and not by the
block. -/
theorem followsTurns (control : String) (target : Operand) (inner : first.Follows second) :
    (Task.turns control target first).Follows (.turns control target second) := by
  intro store progress h
  generalize same : Task.turns control target first = task at h
  induction h with
  | leave read equal =>
    cases same
    exact ⟨_, .leave read equal, rfl⟩
  | pass read differs body later _ ih =>
    cases same
    obtain ⟨report, body⟩ := followsThrough inner body
    obtain ⟨final, later, shown⟩ := ih rfl
    exact ⟨_, .pass read differs body later, by simp only [Progress.afterShown, shown]⟩
  | passStopped read differs body =>
    cases same
    exact ⟨_, .passStopped read differs (followsStopped inner body), rfl⟩
  | _ => cases same

theorem followsLoop (head close : Statement) (inner : first.Follows second)
    (after : front.Follows behind) :
    (loop head first close front).Follows (loop head second close behind) := by
  intro store progress h
  cases h with
  | shut refused => exact ⟨_, .shut refused, rfl⟩
  | loop form opened turns later =>
    obtain ⟨report, turns⟩ := followsThrough (followsTurns _ _ inner) turns
    obtain ⟨final, later, shown⟩ := after later
    exact ⟨_, .loop form opened turns later, by simp only [Progress.afterShown, shown]⟩
  | loopStopped form opened turns =>
    exact ⟨_, .loopStopped form opened (followsStopped (followsTurns _ _ inner) turns), rfl⟩

theorem followsConcludes {left right : List Statement} {store : Store} {outcome : Outcome}
    (inner : first.Follows second) (next : left.head? = right.head?)
    (concludes : Concludes first left store outcome) :
    ∃ other, Concludes second right store other ∧ other.shown = outcome.shown := by
  cases concludes with
  | stopped body => exact ⟨_, .stopped (followsStopped inner body), rfl⟩
  | done body =>
    obtain ⟨report, body⟩ := followsThrough inner body
    obtain rfl := List.head?_eq_none_iff.mp next.symm
    exact ⟨_, .done body, rfl⟩
  | stuck body refused =>
    obtain ⟨report, body⟩ := followsThrough inner body
    obtain ⟨rest, rfl⟩ := List.head?_eq_some_iff.mp next.symm
    exact ⟨_, .stuck body refused, rfl⟩

theorem concludesClosed {store : Store} {outcome : Outcome} :
    Concludes first [] store outcome ↔
      ∃ progress, Evaluates (.block first) store progress ∧ outcome = progress.outcome := by
  apply Iff.intro
  · intro concludes
    cases concludes with
    | stopped inner => exact ⟨_, inner, rfl⟩
    | done inner => exact ⟨_, inner, rfl⟩
  · intro ⟨progress, inner, same⟩
    rw [same]
    cases progress with
    | through last report => exact .done inner
    | stopped last fault => exact .stopped inner

theorem idleFollows {head close : Statement} {name : String}
    (form : head.instruction = .loop name (.named name)) (first second : Block) :
    (loop head first close .done).Follows (loop head second close .done) := by
  have equal {store : Store} {reach : UInt64}
      (read : (Operand.named name).value store = .ok reach) : store.get? name = some reach := by
    cases found : store.get? name with
    | none =>
      simp only [Operand.value, found] at read
      contradiction
    | some value =>
      simp only [Operand.value, found] at read
      exact congrArg some (Except.ok.inj read)
  intro store progress h
  cases h with
  | shut refused => exact ⟨_, .shut refused, rfl⟩
  | loop other opened turns later =>
    cases form.symm.trans other
    have read := headerRead opened
    cases (turnsLeave read (equal read)).mp turns
    exact ⟨_, .loop form opened (.leave read (equal read)) later, rfl⟩
  | loopStopped other opened turns =>
    cases form.symm.trans other
    have read := headerRead opened
    cases (turnsLeave read (equal read)).mp turns

end Block

namespace Layers

inductive Follows : Layers → Layers → Prop where
  | last {first second left right} (inner : Block.Follows first second)
      (next : left.head? = right.head?) : Follows (.last first left) (.last second right)
  | closed {first second close left right} (inner : Block.Follows first second)
      (outer : Follows left right) : Follows (.closed first close left) (.closed second close right)

variable {first second : Layers}

theorem followsSelf (layers : Layers) : layers.Follows layers := by
  induction layers with
  | last block remainder => exact .last Block.followsSelf rfl
  | closed block close outer ih => exact .closed Block.followsSelf ih

theorem followsPush {item other : Block → Block}
    (inner : ∀ {front behind : Block}, front.Follows behind → (item front).Follows (other behind))
    (h : first.Follows second) : (first.push item).Follows (second.push other) := by
  cases h with
  | last block next => exact .last (inner block) next
  | closed block outer => exact .closed (inner block) outer

theorem followsRead {left right : List Statement} (h : (read left).Follows (read right))
    (front : List Statement) : (read (front ++ left)).Follows (read (front ++ right)) := by
  induction front with
  | nil => exact h
  | cons statement rest ih =>
    rw [List.cons_append, List.cons_append, read, read]
    split
    · -- Both sides find the end of this loop, or neither does.
      generalize read (rest ++ left) = before at ih ⊢
      generalize read (rest ++ right) = after at ih ⊢
      cases ih with
      | last inner next => exact .last Block.followsSelf rfl
      | closed inner outer =>
        exact followsPush (Block.followsLoop statement _ inner) outer
    · split
      · exact .closed Block.followsSelf ih
      · exact followsPush (Block.followsSimple statement) ih

theorem followsSplit (h : first.Follows second) : first.split.1.Follows second.split.1 ∧
    first.split.2.head? = second.split.2.head? := by
  cases h with
  | last inner next => exact ⟨inner, next⟩
  | closed inner outer => exact ⟨inner, rfl⟩

end Layers

namespace Program

def Alike (first second : Program) (store : Store) : Prop :=
  ((∀ outcome, ¬ first.Finishes store outcome) ∧ ∀ outcome, ¬ second.Finishes store outcome) ∨
    ∃ outcome other, first.Finishes store outcome ∧ second.Finishes store other ∧
      outcome.shown = other.shown

def Follows (first second : Program) (store : Store) : Prop :=
  ∀ outcome, first.Finishes store outcome →
    ∃ other, second.Finishes store other ∧ other.shown = outcome.shown

variable {first second : Program} {store : Store}

theorem alikeFollows :
    Alike first second store ↔ Follows first second store ∧ Follows second first store := by
  apply Iff.intro
  · intro alike
    rcases alike with ⟨never, neither⟩ | ⟨outcome, other, left, right, same⟩
    · exact ⟨fun _ ends => absurd ends (never _), fun _ ends => absurd ends (neither _)⟩
    · apply And.intro
      · intro found ends
        rw [finishesOnce ends left]
        exact ⟨other, right, same.symm⟩
      · intro found ends
        rw [finishesOnce ends right]
        exact ⟨outcome, left, same⟩
  · intro ⟨there, back⟩
    by_cases ends : ∃ outcome, first.Finishes store outcome
    · obtain ⟨outcome, left⟩ := ends
      obtain ⟨other, right, same⟩ := there outcome left
      exact .inr ⟨outcome, other, left, right, same.symm⟩
    · refine .inl ⟨fun outcome left => ends ⟨outcome, left⟩, fun other right => ?_⟩
      obtain ⟨outcome, left, _⟩ := back other right
      exact ends ⟨outcome, left⟩

theorem finishesBlock {block : Block} (sound : block.Sound) (flat : block.flatten = first.toList)
    (store : Store) (outcome : Outcome) : first.Finishes store outcome ↔
      ∃ progress, Evaluates (.block block) store progress ∧ outcome = progress.outcome := by
  have splits : Splits first.toList block [] := ⟨sound, by rw [List.append_nil, flat], trivial⟩
  rw [finishesConcludes splits, Block.concludesClosed]

theorem doneBlock {block : Block} (sound : block.Sound) (flat : block.flatten = first.toList)
    {last : Store} {report : Report} : first.Finishes store ⟨last, .done report⟩ ↔
      Evaluates (.block block) store (.through last report) := by
  rw [finishesBlock sound flat]
  apply Iff.intro
  · rintro ⟨progress, inner, same⟩
    cases progress with
    | stopped last fault => cases same
    | through last report =>
      cases same
      exact inner
  · intro inner
    exact ⟨_, inner, rfl⟩

theorem followsBlock {block other : Block} (sound : block.Sound)
    (flat : block.flatten = first.toList) (good : other.Sound)
    (even : other.flatten = second.toList) :
    (∀ store, Follows first second store) ↔ block.Follows other := by
  simp only [Follows, finishesBlock sound flat, finishesBlock good even]
  apply Iff.intro
  · intro follows store progress inner
    obtain ⟨_, ⟨later, found, rfl⟩, shown⟩ := follows store _ ⟨progress, inner, rfl⟩
    exact ⟨later, found, shown⟩
  · rintro follows store _ ⟨progress, inner, rfl⟩
    obtain ⟨later, found, shown⟩ := follows inner
    exact ⟨_, ⟨later, found, rfl⟩, shown⟩

theorem followsWithin (left : Balanced first.toList) (right : Balanced second.toList)
    (follows : ∀ store, Follows first second store) (front back : Program) :
    Follows (front ++ first ++ back) (front ++ second ++ back) store := by
  obtain ⟨block, sound, flat⟩ := balancedBlock (balancedLevel.mp left)
  obtain ⟨other, good, even⟩ := balancedBlock (balancedLevel.mp right)
  have inner : block.Follows other := (followsBlock sound flat good even).mp follows
  have behind : (Layers.read (first.toList ++ back.toList)).Follows
      (Layers.read (second.toList ++ back.toList)) := by
    rw [← flat, ← even, Layers.readAppend sound, Layers.readAppend good]
    exact Layers.followsPush (Block.followsAppend inner) (Layers.followsSelf _)
  have whole := Layers.followsRead behind front.toList
  rw [← List.append_assoc, ← List.append_assoc] at whole
  simp only [← Array.toList_append] at whole
  obtain ⟨blocks, next⟩ := Layers.followsSplit whole
  intro outcome ends
  have concludes := (finishesConcludes (Block.splitSplits _) _ _).mp ends
  obtain ⟨final, concludes, shown⟩ := Block.followsConcludes blocks next concludes
  exact ⟨final, (finishesConcludes (Block.splitSplits _) _ _).mpr concludes, shown⟩

theorem contextsAgree {first second : Program} (left : Balanced first.toList)
    (right : Balanced second.toList) (alike : ∀ store, Alike first second store)
    (front back : Program) (store : Store) :
    Alike (front ++ first ++ back) (front ++ second ++ back) store := by
  have there (store : Store) := (alikeFollows.mp (alike store)).1
  have again (store : Store) := (alikeFollows.mp (alike store)).2
  exact alikeFollows.mpr
    ⟨followsWithin left right there front back, followsWithin right left again front back⟩

theorem idleAlike {head close : Statement} {name : String}
    (form : head.instruction = .loop name (.named name)) (closes : close.closes = true)
    (left : Balanced first.toList) (right : Balanced second.toList) (store : Store) :
    Alike (looped head first close) (looped head second close) store := by
  obtain ⟨body, sound, flat⟩ := balancedBlock (balancedLevel.mp left)
  obtain ⟨instead, good, even⟩ := balancedBlock (balancedLevel.mp right)
  have opens := Machine.loopOpens form
  have here : (Block.loop head body close .done).Sound := ⟨opens, closes, sound, trivial⟩
  have there : (Block.loop head instead close .done).Sound := ⟨opens, closes, good, trivial⟩
  have whole : _ = (looped head first close).toList := loopedFlatten flat
  have other : _ = (looped head second close).toList := loopedFlatten even
  have forth := (followsBlock here whole there other).mpr (Block.idleFollows form _ _)
  have back := (followsBlock there other here whole).mpr (Block.idleFollows form _ _)
  exact alikeFollows.mpr ⟨forth store, back store⟩

def idle : Statement := ⟨"while x not x do", "while x not x do;", 2, .loop "x" (.named "x")⟩

def idleEnd : Statement := ⟨"end", "end;", 4, .close⟩

def upToHole : Program :=
  #[⟨"while x not 2 do", "while x not 2 do;", 1, .loop "x" (.literal 2)⟩]

def fromHole : Program :=
  #[⟨"incr x", "incr x;", 5, .act .incr "x"⟩, ⟨"end", "end;", 6, .close⟩,
    ⟨"end", "end;", 7, .close⟩]

theorem idleReplaced :
    let busy := looped idle #[⟨"incr y", "incr y;", 3, .act .incr "y"⟩] idleEnd
    let empty := looped idle #[] idleEnd
    Alike (upToHole ++ busy ++ fromHole) (upToHole ++ empty ++ fromHole) (.single "x" 0) ∧
      (upToHole ++ empty ++ fromHole).Finishes (.single "x" 0)
        ⟨.single "x" 2, .failed ⟨7, "end;", .redundantEnd⟩⟩ := by
  intro busy empty
  have left : Balanced busy.toList := by decide
  have right : Balanced empty.toList := by decide
  have alike (store : Store) : Alike busy empty store :=
    idleAlike rfl rfl (by decide) (by decide) store
  exact ⟨contextsAgree left right alike upToHole fromHole (.single "x" 0), 30, by decide⟩

end Program
end CounterLang
