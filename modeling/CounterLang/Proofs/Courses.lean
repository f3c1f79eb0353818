import CounterLang.Proofs.Enclosure
import CounterLang.Proofs.Updates

/-! Activations of loops in a run. One begins when a header is opened and goes on while its loop
is open, through everything that the passes do, loops inside of the body included. Its
course tells the stores of its own stop tests, from the one before the first pass on. -/
namespace CounterLang

/- The loops around the place of a state. A loop that is tested is not around its test. -/
def State.around : State → List Loop
  | .walk _ loops _ _ => loops
  | .check _ outer _ _ => outer

def Loop.changes (program : Program) (loop : Loop) : List String :=
  (Nesting.between program (loop.head + 1) loop.close).flatMap fun statement =>
    statement.instruction.changes

namespace Program

inductive Course (program : Program) (store : Store) (outer : List Loop) :
    List Store → State → Prop where
  | enter {past cursor before report statement loop now counted}
      (arrives : program.Arrives store past (.walk cursor outer before report))
      (stepped : Machine.step program (.walk cursor outer before report) =
        .next [.dispatch cursor statement, .enter loop] (.check loop outer now counted)) :
      Course program store outer [now] (.check loop outer now counted)
  | within {tests state events next} (before : Course program store outer tests state)
      (stepped : Machine.step program state = .next events next)
      (inside : outer.length < next.around.length) : Course program store outer tests next
  | test {tests state events loop now counted} (before : Course program store outer tests state)
      (stepped : Machine.step program state = .next events (.check loop outer now counted)) :
      Course program store outer (tests ++ [now]) (.check loop outer now counted)

end Program

namespace Machine
open Nesting

theorem nestedPlaced {program : Program} {loops : List Loop} (nested : Nested program loops) :
    ∀ loop ∈ loops, ∃ outer, Placed program outer loop := by
  intro loop member
  obtain ⟨inner, outer, rfl⟩ := List.append_of_mem member
  exact ⟨outer, (nestedOuter nested).1⟩

theorem openLonger {loops inner outer : List Loop} {loop : Loop}
    (opened : loops = inner ++ loop :: outer) : outer.length < loops.length := by
  rw [opened, List.length_append, List.length_cons]
  omega

section Moves

variable {program : Program} {state next : State} {events : List Event} {inner outer : List Loop}
  {loop : Loop}

theorem movesWithin (moves : Moves program state events next)
    (opened : state.loops = inner ++ loop :: outer) (inside : outer.length < next.around.length) :
    ∃ further, next.loops = further ++ loop :: outer := by
  cases moves with
  | act => exact ⟨inner, opened⟩
  | enter => exact ⟨_ :: inner, congrArg (_ :: ·) opened⟩
  | again =>
    cases inner with
    | nil =>
      cases opened
      exact absurd inside (Nat.lt_irrefl _)
    | cons first inner =>
      cases opened
      exact ⟨_ :: inner, rfl⟩
  | leave =>
    cases inner with
    | nil =>
      cases opened
      exact absurd inside (Nat.lt_irrefl _)
    | cons first inner =>
      cases opened
      exact ⟨inner, rfl⟩
  | pass => exact ⟨inner, opened⟩

theorem movesTest {tested : Loop} {store : Store} {report : Report}
    (moves : Moves program state events (.check tested outer store report))
    (opened : state.loops = inner ++ loop :: outer) :
    ∃ reach, tested = loop.again reach := by
  cases moves with
  | enter => exact absurd (openLonger opened) (Nat.lt_irrefl _)
  | again =>
    cases inner with
    | nil =>
      cases opened
      exact ⟨_, rfl⟩
    | cons first inner =>
      have same := (List.cons.inj opened).2
      exact absurd (openLonger same) (Nat.lt_irrefl _)

theorem movesOutside {name : String} (sound : Sound program state)
    (moves : Moves program state events next) (member : loop ∈ state.loops)
    (never : name ∉ loop.changes program) : next.store.get? name = state.store.get? name := by
  cases moves with
  | @act cursor loops store report statement action other next found form done =>
    obtain ⟨bound, stands⟩ := currentSome.mp found
    obtain ⟨_, placed⟩ := nestedPlaced sound.nested loop member
    obtain ⟨after, close, matched, before⟩ :=
      openContains sound.nested sound.place.1 bound loop member
    rw [matchedOnce matched (placedMatched placed)] at before
    have inside : statement ∈ between program (loop.head + 1) loop.close := by
      rw [← betweenAppend program after (Nat.le_of_lt before), betweenCons before stands]
      exact List.mem_append_right _ List.mem_cons_self
    have changed : other ∈ loop.changes program := by
      refine List.mem_flatMap.mpr ⟨statement, inside, ?_⟩
      rw [form]
      exact List.mem_cons_self
    have apart : name ≠ other := by
      rintro rfl
      exact never changed
    exact actOthers done apart
  | enter => rfl
  | again => rfl
  | leave => rfl
  | pass => rfl

end Moves

end Machine

namespace Program
open Machine

variable {program : Program} {store : Store} {outer : List Loop} {tests : List Store}
  {state : State}

theorem courseArrives (course : Course program store outer tests state) :
    ∃ past, program.Arrives store past state := by
  induction course with
  | enter arrives stepped => exact ⟨_, .next arrives stepped⟩
  | within before stepped inside ih =>
    obtain ⟨past, arrives⟩ := ih
    exact ⟨_, .next arrives stepped⟩
  | test before stepped ih =>
    obtain ⟨past, arrives⟩ := ih
    exact ⟨_, .next arrives stepped⟩

theorem openCourse {past : List Event} {inner : List Loop} {loop : Loop}
    (arrives : program.Arrives store past state) (opened : state.loops = inner ++ loop :: outer) :
    ∃ tests, Course program store outer tests state := by
  induction arrives generalizing inner loop outer with
  | start => simp [Program.start, State.loops] at opened
  | @next past state events next before stepped ih =>
    have deeper (further : List Loop) (now : Loop) (here : state.loops = further ++ now :: outer)
        (inside : outer.length < next.around.length) :
        ∃ tests, Course program store outer tests next := by
      obtain ⟨tests, course⟩ := ih here
      exact ⟨tests, .within course stepped inside⟩
    cases movesStep stepped with
    | act => exact deeper inner loop opened (openLonger opened)
    | enter =>
      cases inner with
      | nil =>
        cases opened
        exact ⟨_, .enter before stepped⟩
      | cons first inner =>
        have same := (List.cons.inj opened).2
        exact deeper inner loop same (openLonger same)
    | @again _ last =>
      cases inner with
      | nil =>
        cases opened
        obtain ⟨tests, course⟩ := ih (List.nil_append _).symm
        exact ⟨_, .test course stepped⟩
      | cons first inner =>
        have same := (List.cons.inj opened).2
        exact deeper (last :: inner) loop (congrArg (last :: ·) same) (openLonger same)
    | @leave left =>
      exact deeper (left :: inner) loop (congrArg (left :: ·) opened) (openLonger opened)
    | pass => exact deeper inner loop opened (openLonger opened)

end Program
end CounterLang
