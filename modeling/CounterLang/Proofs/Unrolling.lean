import CounterLang.Proofs.Composition
import CounterLang.Proofs.Refinement

/-! Unrolling. A loop whose control has reached its target already is passed over. Any
other loop runs as its body with the loop once more behind it, and counts one iteration
more than these do. -/
namespace CounterLang
open Nesting

variable {head close : Statement} {control : String} {target : Operand} {body rest : Block}
  {store : Store} {reach : UInt64} {progress : Progress}

theorem headerOf {value : UInt64} (defined : store.get? control = some value)
    (read : target.value store = .ok reach) : store.header control target = .ok reach := by
  have member := Store.getSome.mp ⟨value, defined⟩
  rw [Store.header, if_pos (Store.containsNames.mpr member), read]

theorem evaluatesOver (form : head.instruction = .loop control target)
    (opened : store.header control target = .ok reach) (equal : store.get? control = some reach) :
    Evaluates (.block (.loop head body close rest)) store progress ↔
      ∃ other, Evaluates (.block rest) store other ∧ progress = other.after ⟨1, 0⟩ := by
  rw [evaluatesLoop form opened]
  simp only [turnsLeave (headerRead opened) equal, exists_eq_left]
  rw [Progress.thenAfter]
  apply exists_congr
  intro other
  apply and_congr_left
  intro _
  apply Iff.intro
  · intro h
    cases h with
    | through onward =>
      rw [Progress.afterZero]
      exact onward
  · intro onward
    rw [← other.afterZero]
    exact .through onward

theorem evaluatesUnrolled (form : head.instruction = .loop control target)
    (opened : store.header control target = .ok reach)
    (differs : store.get? control ≠ some reach) :
    Evaluates (.block (.loop head body close rest)) store progress ↔
      ∃ other, Evaluates (.block (body.append (.loop head body close rest))) store other ∧
        progress = other.after ⟨0, 1⟩ := by
  -- Behind the body the header can be opened again, whatever the body did.
  have again {first : Progress} {middle : Store} {report : Report}
      (inner : Evaluates (.block body) store first) (same : first = .through middle report)
      (final : Progress) :
      Evaluates (.block (.loop head body close rest)) middle final ↔
        ∃ turned, Evaluates (.turns control target body) middle turned ∧
          (turned.after ⟨1, 0⟩).Then (fun last => Evaluates (.block rest) last) final := by
    have names := evaluatesNames inner
    rw [same] at names
    obtain ⟨_, opened⟩ := headerStays ⟨reach, opened⟩ names
    exact evaluatesLoop form opened
  rw [evaluatesLoop form opened]
  simp only [turnsPass (headerRead opened) differs, evaluatesAppend]
  apply Iff.intro
  · intro ⟨turned, ⟨first, inner, onward⟩, behind⟩
    have all := Progress.thenThen.mp ⟨turned, onward, behind⟩
    obtain ⟨other, all, same⟩ := Progress.thenAfter.mp all
    have loops := Progress.thenMono all fun same => (again inner same _).mpr
    exact ⟨other, ⟨first, inner, loops⟩, same⟩
  · intro ⟨other, ⟨first, inner, onward⟩, same⟩
    have turns := Progress.thenMono onward fun same => (again inner same _).mp
    have all := Progress.thenAfter.mpr ⟨other, turns, same⟩
    obtain ⟨turned, onward, behind⟩ := Progress.thenThen.mpr all
    exact ⟨turned, ⟨first, inner, onward⟩, behind⟩

theorem concludesBehind {first second : Block} {remainder : List Statement} {report : Report}
    (same : ∀ progress, Evaluates (.block first) store progress ↔
      ∃ other, Evaluates (.block second) store other ∧ progress = other.after report)
    (outcome : Outcome) :
    Concludes first remainder store outcome ↔
      ∃ other, Concludes second remainder store other ∧ outcome = other.behind report := by
  apply Iff.intro
  · intro concludes
    cases concludes with
    | stopped inner =>
      obtain ⟨other, found, equal⟩ := (same _).mp inner
      obtain rfl := Progress.stoppedAfter.mp equal
      exact ⟨_, .stopped found, rfl⟩
    | done inner =>
      obtain ⟨other, found, equal⟩ := (same _).mp inner
      obtain ⟨more, rfl, rfl⟩ := Progress.throughAfter.mp equal
      exact ⟨_, .done found, rfl⟩
    | stuck inner refused =>
      obtain ⟨other, found, equal⟩ := (same _).mp inner
      obtain ⟨more, rfl, rfl⟩ := Progress.throughAfter.mp equal
      exact ⟨_, .stuck found refused, rfl⟩
  · intro ⟨other, concludes, equal⟩
    rw [equal]
    cases concludes with
    | stopped inner => exact .stopped ((same _).mpr ⟨_, inner, rfl⟩)
    | done inner => exact .done ((same _).mpr ⟨_, inner, rfl⟩)
    | stuck inner refused => exact .stuck ((same _).mpr ⟨_, inner, rfl⟩) refused

namespace Program

def looped (head : Statement) (body : Program) (close : Statement) : Program :=
  #[head] ++ body ++ #[close]

theorem loopedFlatten {inner : Program} (flat : body.flatten = inner.toList) :
    (Block.loop head body close .done).flatten = (looped head inner close).toList := by
  simp [looped, Block.flatten, flat]

theorem splitsBehind {front back : Program} {first block : Block} {remainder : List Statement}
    (sound : first.Sound) (flat : first.flatten = front.toList)
    (splits : Splits back.toList block remainder) :
    Splits (front ++ back).toList (first.append block) remainder := by
  refine ⟨Block.appendSound sound splits.sound, ?_, splits.stuck⟩
  rw [Block.appendFlatten, List.append_assoc, splits.whole, flat, Array.toList_append]

theorem splitsLooped {inner back : Program} {block : Block} {remainder : List Statement}
    (opens : head.opens = true) (closes : close.closes = true) (sound : body.Sound)
    (flat : body.flatten = inner.toList) (splits : Splits back.toList block remainder) :
    Splits (looped head inner close ++ back).toList (.loop head body close block) remainder := by
  have alone : (Block.loop head body close .done).Sound := ⟨opens, closes, sound, trivial⟩
  exact splitsBehind alone (loopedFlatten flat) splits

theorem loopUnrolls {head close : Statement} {control : String} {target : Operand}
    {body : Program} {store : Store} {value reach : UInt64}
    (form : head.instruction = .loop control target) (closes : close.closes = true)
    (balanced : Balanced body.toList) (defined : store.get? control = some value)
    (read : target.value store = .ok reach) (rest : Program) :
    (value = reach → ∀ outcome, (looped head body close ++ rest).Finishes store outcome ↔
      ∃ other, rest.Finishes store other ∧ outcome = other.behind ⟨1, 0⟩) ∧
    (value ≠ reach → ∀ outcome, (looped head body close ++ rest).Finishes store outcome ↔
      ∃ other, (body ++ looped head body close ++ rest).Finishes store other ∧
        outcome = other.behind ⟨0, 1⟩) := by
  have opened := headerOf defined read
  obtain ⟨inner, sound, flat⟩ := balancedBlock (balancedLevel.mp balanced)
  obtain ⟨block, remainder, splits⟩ := Block.splitsSome rest.toList
  have whole := splitsLooped (Machine.loopOpens form) closes sound flat splits
  apply And.intro
  · intro same outcome
    have skips (progress : Progress) :
        Evaluates (.block (.loop head inner close block)) store progress ↔
          ∃ other, Evaluates (.block block) store other ∧ progress = other.after ⟨1, 0⟩ :=
      evaluatesOver form opened (same ▸ defined)
    rw [finishesConcludes whole, concludesBehind skips]
    simp only [finishesConcludes splits]
  · intro differs outcome
    have other : store.get? control ≠ some reach := by
      rw [defined]
      exact fun same => differs (Option.some.inj same)
    have longer := splitsBehind sound flat whole
    rw [← Array.append_assoc] at longer
    have unrolled (progress : Progress) :
        Evaluates (.block (.loop head inner close block)) store progress ↔
          ∃ other, Evaluates (.block (inner.append (.loop head inner close block))) store other ∧
            progress = other.after ⟨0, 1⟩ :=
      evaluatesUnrolled form opened other
    rw [finishesConcludes whole, concludesBehind unrolled]
    simp only [finishesConcludes longer]

def chase : Statement := ⟨"while x not y do", "while x not y do;", 1, .loop "x" (.named "y")⟩

def chaseEnd : Statement := ⟨"end", "end;", 5, .close⟩

def closeUp : Program :=
  #[⟨"decr y", "decr y;", 2, .act .decr "y"⟩, chase, ⟨"incr x", "incr x;", 3, .act .incr "x"⟩,
    chaseEnd]

def fallTwice : Program :=
  #[⟨"decr x", "decr x;", 6, .act .decr "x"⟩, ⟨"decr x", "decr x;", 7, .act .decr "x"⟩]

theorem chaseUnrolls :
    let fallen : Outcome :=
      ⟨⟨[("x", 0), ("y", 1)], by decide⟩, .failed ⟨7, "decr x;", .belowZero "x" "decr x"⟩⟩
    (looped chase closeUp chaseEnd ++ fallTwice).Finishes ⟨[("x", 0), ("y", 2)], by decide⟩ fallen ∧
      (looped chase closeUp chaseEnd ++ fallTwice).Finishes ⟨[("x", 1), ("y", 1)], by decide⟩
        fallen := by
  intro fallen
  have balanced : Balanced closeUp.toList := by decide
  have unrolled : (closeUp ++ looped chase closeUp chaseEnd ++ fallTwice).Finishes
      ⟨[("x", 0), ("y", 2)], by decide⟩ fallen := ⟨20, by decide⟩
  have rest : fallTwice.Finishes ⟨[("x", 1), ("y", 1)], by decide⟩ fallen := ⟨3, by decide⟩
  have zero : Store.get? ⟨[("x", 0), ("y", 2)], by decide⟩ "x" = some 0 := by decide
  have one : Store.get? ⟨[("x", 1), ("y", 1)], by decide⟩ "x" = some 1 := by decide
  have form : chase.instruction = .loop "x" (.named "y") := rfl
  have closes : chaseEnd.closes = true := rfl
  have far := (loopUnrolls form closes balanced zero rfl fallTwice).2 (by decide) fallen
  have near := (loopUnrolls form closes balanced one rfl fallTwice).1 rfl fallen
  exact ⟨far.mpr ⟨fallen, unrolled, rfl⟩, near.mpr ⟨fallen, rest, rfl⟩⟩

end Program
end CounterLang
