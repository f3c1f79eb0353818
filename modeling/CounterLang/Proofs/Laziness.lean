import CounterLang.Proofs.Lockstep

/-! Statements where a run never comes. Of these only the brackets count, since the
scan for the end of a loop goes over them. What else they say is looked at when they are
dispatched and not before, so bodies that are skipped, whatever stands behind a fault and
the ends of loops may as well be others. -/
namespace CounterLang

namespace Likeness

def same : Likeness := oneStore Eq

theorem sameKept : same.Kept := by
  apply keptOneStore
  rintro left right rfl
  exact ⟨rfl, rfl⟩

theorem loopsSame {left right : Loop} (loops : same.Loops left right) : left = right := by
  obtain ⟨head, statement, close, control, target, reach, passes⟩ := left
  obtain ⟨start, other, stop, name, goal, value, rounds⟩ := right
  obtain ⟨rfl, rfl, rfl, rfl, alike, form, shape⟩ := loops
  obtain rfl : statement = other := alike
  obtain ⟨rfl, rfl⟩ := Instruction.loop.inj (form.symm.trans shape)
  rfl

theorem eventsSame {left right : Event} (events : same.Events left right) : left = right := by
  cases events with
  | dispatch alike => exact congrArg _ alike
  | enter loops => exact congrArg _ (loopsSame loops)
  | leave loops => exact congrArg _ (loopsSame loops)

theorem outcomesSame {first second : Program} {events : List Event} {left right : Outcome}
    (outcomes : same.Outcomes first second events left right) : left = right := by
  cases outcomes with
  | done stores =>
    cases stores
    rfl
  | failed place here there alike causes stores =>
    cases stores
    cases alike
    cases causes
    rfl

end Likeness

namespace Program

theorem unreachedUnseen {program changed : Program} {store : Store} {events : List Event}
    {outcome : Outcome} (traced : program.Traces store events outcome)
    (brackets : SameBrackets program changed)
    (kept : ∀ index ∈ positions events, changed[index]? = program[index]?) :
    changed.Traces store events outcome := by
  have programs : Likeness.same.Programs (· ∈ positions events) program changed := by
    refine ⟨brackets, fun {index left} reached found => ⟨left, ?_, rfl⟩⟩
    rw [kept index reached, found]
  have seen : ∀ entry ∈ dispatches events, entry.1 ∈ positions events :=
    fun entry member => List.mem_map_of_mem member
  obtain ⟨told, last, traced, log, outcomes⟩ :=
    Likeness.tracesAlike Likeness.sameKept programs rfl traced seen
  obtain rfl : events = told := by
    rw [← List.forall₂_eq_eq_eq]
    exact log.imp fun _ _ => Likeness.eventsSame
  obtain rfl := Likeness.outcomesSame outcomes
  exact traced

def idleBody : Program :=
  #[⟨"while x not 0 do", "while x not 0 do;", 1, .loop "x" (.literal 0)⟩,
    ⟨"incr x", "incr x;", 2, .act .incr "x"⟩,
    ⟨"end", "end;", 3, .close⟩,
    ⟨"decr x", "decr x;", 4, .act .decr "x"⟩,
    ⟨"clear y", "clear y;", 5, .act .clear "y"⟩]

def strangeBody : Program :=
  #[⟨"while x not 0 do", "while x not 0 do;", 1, .loop "x" (.literal 0)⟩,
    ⟨"incr x y", "incr x y;", 7, .malformed (.act .incr) (.tooMany 2)⟩,
    ⟨"end", "end;", 3, .malformed .close .missingArgument⟩,
    ⟨"decr x", "decr x;", 4, .act .decr "x"⟩,
    ⟨"stop", "stop;", 9, .unknown "stop"⟩]

theorem strangeUnseen :
    let store := Store.single "x" 0
    let head : Statement := ⟨"while x not 0 do", "while x not 0 do;", 1, .loop "x" (.literal 0)⟩
    let loop : Loop := ⟨0, head, 2, "x", .literal 0, 0, 0⟩
    let events : List Event := [.dispatch 0 head, .enter loop, .leave loop,
      .dispatch 3 ⟨"decr x", "decr x;", 4, .act .decr "x"⟩]
    let outcome : Outcome := ⟨store, .failed ⟨4, "decr x;", .belowZero "x" "decr x"⟩⟩
    idleBody.Traces store events outcome ∧ SameBrackets idleBody strangeBody ∧
      (∀ index ∈ positions events, strangeBody[index]? = idleBody[index]?) ∧
      strangeBody.Traces store events outcome := by
  intro store head loop events outcome
  have traced : idleBody.Traces store events outcome := ⟨10, by decide⟩
  have brackets : SameBrackets idleBody strangeBody := by decide
  have kept : ∀ index ∈ positions events, strangeBody[index]? = idleBody[index]? := by decide
  exact ⟨traced, brackets, kept, unreachedUnseen traced brackets kept⟩

end Program
end CounterLang
