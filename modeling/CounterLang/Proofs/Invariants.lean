import CounterLang.Proofs.Counting

/-! The invariant rule for loops. What a pass keeps, as long as it starts with control and
target apart, holds when the loop is left, and then the control has just the value that the
target has in that very store. The target may be a counter that the body moves. -/
namespace CounterLang

def Apart (control : String) (target : Operand) (store : Store) : Prop :=
  ∃ value reach, store.get? control = some value ∧ target.value store = .ok reach ∧ value ≠ reach

section Turns

variable {control : String} {target : Operand} {store : Store} {reach : UInt64}

theorem apartRead (read : target.value store = .ok reach)
    (differs : store.get? control ≠ some reach) (defined : control ∈ store.names) :
    Apart control target store := by
  obtain ⟨value, found⟩ := Store.getSome.mpr defined
  refine ⟨value, reach, found, read, fun same => differs ?_⟩
  rw [found, same]

theorem turnsKeep {body : Block} {last : Store} {report : Report} {invariant : Store → Prop}
    (kept : ∀ middle next counted, invariant middle → Apart control target middle →
      Evaluates (.block body) middle (.through next counted) → invariant next)
    (turns : Evaluates (.turns control target body) store (.through last report))
    (defined : control ∈ store.names) (holds : invariant store) :
    invariant last ∧ Met control target last := by
  generalize task : Task.turns control target body = task at turns
  generalize reached : Progress.through last report = progress at turns
  induction turns generalizing report with
  | leave read equal =>
    cases task
    cases reached
    exact ⟨holds, _, read, equal⟩
  | pass read differs inner later _ ih =>
    cases task
    obtain ⟨more, rfl, _⟩ := Progress.throughAfter.mp reached
    have names := evaluatesNames inner
    have after := kept _ _ _ holds (apartRead read differs defined) inner
    exact ih (names.subset defined) after rfl rfl
  | passStopped => cases reached
  | _ => cases task

theorem loopThrough {head close : Statement} {body : Block} {last : Store} {report : Report}
    (form : head.instruction = .loop control target)
    (inner : Evaluates (.block (.loop head body close .done)) store (.through last report)) :
    ∃ reach more, store.header control target = .ok reach ∧
      Evaluates (.turns control target body) store (.through last more) := by
  generalize reached : Progress.through last report = progress at inner
  cases inner with
  | shut => cases reached
  | loop other opened turns later =>
    cases form.symm.trans other
    cases later
    obtain ⟨_, same, _⟩ := Progress.throughAfter.mp reached
    cases same
    exact ⟨_, _, opened, turns⟩
  | loopStopped => cases reached

end Turns

namespace Machine

theorem passStarts {program : Program} {store now : Store} {past : List Event} {loop : Loop}
    {outer : List Loop} {counted : Report}
    (arrives : program.Arrives store past (.walk (loop.head + 1) (loop :: outer) now counted)) :
    Apart loop.control loop.target now := by
  generalize reached : State.walk (loop.head + 1) (loop :: outer) now counted = state at arrives
  cases arrives with
  | start => cases reached
  | next before stepped =>
    obtain ⟨nested, defined, place⟩ := Program.arrivesSound before
    subst reached
    -- An action ends behind the first place and a loop inside ends further on.
    generalize here : loop.head + 1 = cursor at stepped
    cases movesStep stepped with
    | act =>
      have start := place.1
      dsimp only [blockStart] at start
      omega
    | leave =>
      have order := nested.1.order
      have start := nested.1.start
      have within := nested.2.1.start
      dsimp only [blockStart] at start
      omega
    | pass differs =>
      obtain ⟨_, opened⟩ := defined loop List.mem_cons_self
      exact apartRead place differs (headerOpened.mp ⟨_, opened⟩).1

end Machine

namespace Program

open Machine Nesting

variable {head close : Statement} {control : String} {target : Operand} {body : Program}
  {store last : Store} {report : Report}

theorem loopedOpen {now : Store} {past : List Event} {opened : Loop} {counted : Report}
    (form : head.instruction = .loop control target)
    (arrives : (looped head body close).Arrives store past (.walk 1 [opened] now counted)) :
    opened.head = 0 ∧ opened.control = control ∧ opened.target = target := by
  obtain ⟨⟨placed, _⟩, _, start, _⟩ := arrivesSound arrives
  dsimp only [blockStart] at start
  have first : opened.head = 0 := by omega
  have stands : (looped head body close)[opened.head]? = some head := by
    rw [first, ← Array.getElem?_toList]
    simp [looped]
  have same : head = opened.statement := Option.some.inj (stands.symm.trans placed.found)
  have both := form.symm.trans (same ▸ placed.form)
  cases both
  exact ⟨first, rfl, rfl⟩

theorem invariantKept {invariant : Store → Prop} (form : head.instruction = .loop control target)
    (closes : close.closes = true) (balanced : Balanced body.toList)
    (kept : ∀ middle next counted, invariant middle → Apart control target middle →
      body.Finishes middle ⟨next, .done counted⟩ → invariant next)
    (holds : invariant store)
    (finishes : (looped head body close).Finishes store ⟨last, .done report⟩) :
    invariant last ∧ control ∈ last.names ∧ (∀ name ∈ target.names, name ∈ last.names) ∧
      Met control target last ∧
      ∀ past opened now counted,
        (looped head body close).Arrives store past (.walk 1 [opened] now counted) →
          Apart control target now := by
  obtain ⟨inner, sound, flat⟩ := balancedBlock (balancedLevel.mp balanced)
  have whole : (Block.loop head inner close .done).Sound := ⟨loopOpens form, closes, sound, trivial⟩
  have through := (doneBlock whole (loopedFlatten flat)).mp finishes
  obtain ⟨reach, more, read, turns⟩ := loopThrough form through
  obtain ⟨defined, targets⟩ := headerOpened.mp ⟨reach, read⟩
  have names := evaluatesNames turns
  have alone : ∀ middle next counted, invariant middle → Apart control target middle →
      Evaluates (.block inner) middle (.through next counted) → invariant next :=
    fun middle next counted now apart run =>
      kept middle next counted now apart ((doneBlock sound flat).mpr run)
  obtain ⟨after, met⟩ := turnsKeep alone turns defined holds
  refine ⟨after, names.subset defined, fun name member => names.subset (targets name member), met,
    fun past opened now counted arrives => ?_⟩
  obtain ⟨zero, rfl, rfl⟩ := loopedOpen form arrives
  have place : 1 = opened.head + 1 := by omega
  exact passStarts (place ▸ arrives)

def share : Program :=
  #[⟨"decr y", "decr y;", 2, .act .decr "y"⟩, ⟨"incr x", "incr x;", 3, .act .incr "x"⟩]

def SumFour (store : Store) : Prop :=
  ∃ first second, store.get? "x" = some first ∧ store.get? "y" = some second ∧
    first.toNat + second.toNat = 4

theorem shareKeeps {middle next : Store} {counted : Report} (holds : SumFour middle)
    (finishes : share.Finishes middle ⟨next, .done counted⟩) : SumFour next := by
  obtain ⟨first, second, here, there, sum⟩ := holds
  have steps : Steps middle.names share.toList := by
    have one := Store.getSome.mp ⟨_, here⟩
    have two := Store.getSome.mp ⟨_, there⟩
    simp [Steps, share, one, two]
  obtain ⟨acts, _⟩ := (lineFinishes steps).mp finishes
  have moved := actsMoved steps acts
  obtain ⟨more, found, up⟩ := moved.values "x" first here
  obtain ⟨less, left, down⟩ := moved.values "y" second there
  have changes : drift share.toList "x" = 1 ∧ drift share.toList "y" = -1 := by decide
  rw [changes.1] at up
  rw [changes.2] at down
  exact ⟨more, less, found, left, by omega⟩

theorem halvesMeet :
    let last : Store := ⟨[("x", 2), ("y", 2)], by decide⟩
    (looped chase share chaseEnd).Finishes ⟨[("x", 0), ("y", 4)], by decide⟩
        ⟨last, .done ⟨5, 2⟩⟩ ∧
      SumFour last ∧ Met "x" (.named "y") last ∧
      ¬ ∃ past opened counted, (looped chase share chaseEnd).Arrives
        ⟨[("x", 0), ("y", 4)], by decide⟩ past (.walk 1 [opened] last counted) := by
  intro last
  have finishes : (looped chase share chaseEnd).Finishes ⟨[("x", 0), ("y", 4)], by decide⟩
      ⟨last, .done ⟨5, 2⟩⟩ := ⟨20, by decide⟩
  have holds : SumFour ⟨[("x", 0), ("y", 4)], by decide⟩ := ⟨0, 4, by decide, by decide, by decide⟩
  have balanced : Balanced share.toList := by decide
  have form : chase.instruction = .loop "x" (.named "y") := rfl
  have closes : chaseEnd.closes = true := rfl
  obtain ⟨sum, _, _, met, apart⟩ := invariantKept form closes balanced
    (fun _ _ _ holds _ run => shareKeeps holds run) holds finishes
  refine ⟨finishes, sum, met, fun ⟨past, opened, counted, arrives⟩ => ?_⟩
  obtain ⟨value, reach, found, read, differs⟩ := apart _ _ _ _ arrives
  have equal : last.get? "x" = some 2 ∧ Operand.value (.named "y") last = .ok 2 := by decide
  cases equal.1.symm.trans found
  cases equal.2.symm.trans read
  exact differs rfl

end Program
end CounterLang
