import CounterLang.Proofs.OpenLoops

/-! Histories of runs. A run logs where a loop is entered and left, but not where a pass
through its body begins. A history is the log with these places marked: they are the
tests behind which the tested loop is still open. -/
namespace CounterLang

inductive Mark where
  | logged (event : Event)
  | pass (head : Nat)
  deriving DecidableEq, Repr

def Mark.event? : Mark → Option Event
  | .logged event => some event
  | .pass _ => none

def logOf (history : List Mark) : List Event := history.filterMap Mark.event?

namespace Machine

def passed : State → State → List Mark
  | .check loop outer _ _, .walk _ loops _ _ =>
    if loops = loop :: outer then [.pass loop.head] else []
  | _, _ => []

def marks (state : State) (events : List Event) (next : State) : List Mark :=
  events.map .logged ++ passed state next

def recount (program : Program) : Nat → State → List Mark → Option (List Mark × Outcome)
  | 0, _, _ => none
  | limit + 1, state, past =>
    match step program state with
    | .next events next => recount program limit next (past ++ marks state events next)
    | .halt events outcome => some (past ++ events.map .logged, outcome)

theorem logAppend (front back : List Mark) : logOf (front ++ back) = logOf front ++ logOf back :=
  List.filterMap_append

@[simp] theorem logLogged (events : List Event) : logOf (events.map .logged) = events := by
  induction events with
  | nil => rfl
  | cons event rest ih => exact congrArg (event :: ·) ih

theorem logPassed (state next : State) : logOf (passed state next) = [] := by
  unfold passed
  split
  · split <;> rfl
  · rfl

@[simp] theorem logMarks (state : State) (events : List Event) (next : State) :
    logOf (marks state events next) = events := by
  rw [marks, logAppend, logLogged, logPassed, List.append_nil]

@[simp] theorem marksWalk (cursor : Nat) (loops : List Loop) (store : Store) (report : Report)
    (events : List Event) (next : State) :
    marks (.walk cursor loops store report) events next = events.map .logged :=
  List.append_nil _

@[simp] theorem marksLeave (loop : Loop) (outer : List Loop) (store next : Store)
    (report counted : Report) (cursor : Nat) (events : List Event) :
    marks (.check loop outer store report) events (.walk cursor outer next counted) =
      events.map .logged := by
  have other : outer ≠ loop :: outer := (List.cons_ne_self loop outer).symm
  rw [marks, passed, if_neg other, List.append_nil]

@[simp] theorem marksPass (loop : Loop) (outer : List Loop) (store next : Store)
    (report counted : Report) (cursor : Nat) :
    marks (.check loop outer store report) [] (.walk cursor (loop :: outer) next counted) =
      [.pass loop.head] :=
  if_pos rfl

theorem recordRecount (program : Program) (limit : Nat) (state : State) (past : List Mark) :
    record program limit state (logOf past).reverse =
      (recount program limit state past).map fun told => (logOf told.1, told.2) := by
  induction limit generalizing state past with
  | zero => rfl
  | succ limit ih =>
    simp only [record, recount]
    cases stepped : step program state with
    | next events next =>
      simp only
      rw [← ih, logAppend, logMarks, List.reverse_append]
    | halt events outcome =>
      simp only [Option.map_some, logAppend, logLogged, List.reverse_append, List.reverse_reverse]

end Machine

namespace Program
open Machine

def Recounts (program : Program) (store : Store) (history : List Mark) (outcome : Outcome) : Prop :=
  ∃ limit, recount program limit (start store) [] = some (history, outcome)

theorem tracesRecounts {program : Program} {store : Store} {events : List Event}
    {outcome : Outcome} :
    program.Traces store events outcome ↔
      ∃ history, program.Recounts store history outcome ∧ logOf history = events := by
  have same (limit : Nat) := recordRecount program limit (start store) []
  apply Iff.intro
  · intro ⟨limit, traced⟩
    have told := (same limit).symm.trans traced
    obtain ⟨⟨history, last⟩, found, equal⟩ := Option.map_eq_some_iff.mp told
    cases equal
    exact ⟨history, ⟨limit, found⟩, rfl⟩
  · intro ⟨history, ⟨limit, found⟩, log⟩
    refine ⟨limit, (same limit).trans ?_⟩
    rw [found, ← log]
    rfl

theorem recountsKeep {program : Program} (kept : List Mark → State → Prop)
    (reached : List Mark → Outcome → Prop)
    (moves : ∀ {past state events next}, Sound program state → kept past state →
      Moves program state events next → kept (past ++ marks state events next) next)
    (halts : ∀ {past state events outcome}, Sound program state → kept past state →
      Halts program state events outcome → reached (past ++ events.map .logged) outcome)
    {store history outcome} (recounts : program.Recounts store history outcome)
    (first : kept [] (start store)) : reached history outcome := by
  obtain ⟨limit, found⟩ := recounts
  have sound := soundStart program store
  generalize start store = state at found first sound
  generalize [] = past at found first
  induction limit generalizing state past with
  | zero => contradiction
  | succ limit ih =>
    rcases movesOrHalts program state with ⟨events, next, move⟩ | ⟨events, last, halt⟩
    · simp only [recount, stepMoves move] at found
      exact ih next (soundMoves sound move) _ found (moves sound first move)
    · simp only [recount, stepHalts halt] at found
      cases found
      exact halts sound first halt

end Program

end CounterLang
