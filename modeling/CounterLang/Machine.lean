import CounterLang.Source
import CounterLang.Store

/-! The machine that runs a program on a store. A program stays one flat array, and blocks are
delimited by brackets alone: a statement opens, closes or does neither. A block is the span up
to the closing position of the innermost open loop, or up to the end of the program, and a pass
through a body is another walk over the same span. The stop test of a loop is a state of its
own. A run that is stopped by a fault still has a store, with every change made before the
fault, but no report. -/
namespace CounterLang

def Operand.value (target : Operand) (store : Store) : Except Cause UInt64 :=
  match target with
  | .literal value => .ok value
  | .named name =>
    match store.get? name with
    | some value => .ok value
    | none => .error (.undefinedVariable name)

namespace Statement

def refused (statement : Statement) (action : Action) (name : String) : Refusal → Cause
  | .undefined => .undefinedVariable name
  | .outOfRange =>
    match action with
    | .decr => .belowZero name statement.text
    | _ => .aboveLimit name statement.text

def act (statement : Statement) (action : Action) (name : String) (store : Store) :
    Except Cause Store :=
  (store.perform action name).mapError (statement.refused action name)

end Statement

def Problem.cause (keyword : Keyword) : Problem → Cause
  | .missingArgument => .missingArgument keyword
  | .tooMany found => .tooManyArguments keyword found
  | .illegalLoop => .illegalLoop

namespace Nesting

def closingFrom (depth offset : Nat) : List Statement → Option Nat
  | [] => none
  | statement :: rest =>
    if statement.opens then closingFrom (depth + 1) (offset + 1) rest
    else if statement.closes then
      match depth with
      | 0 => some offset
      | depth + 1 => closingFrom depth (offset + 1) rest
    else closingFrom depth (offset + 1) rest

def closing? (statements : List Statement) : Option Nat := closingFrom 0 0 statements

def between (program : Program) (start stop : Nat) : List Statement :=
  (program.extract start stop).toList

end Nesting

/- Words of 64 bits. A count that has used up its word starts again at nothing. -/
structure Report where
  statementCount : UInt64
  iterationCount : UInt64
  deriving DecidableEq, Repr

namespace Report

def zero : Report := ⟨0, 0⟩

def statements (report : Report) : Nat := report.statementCount.toNat

def iterations (report : Report) : Nat := report.iterationCount.toNat

end Report

inductive Ending where
  | done (report : Report)
  | failed (fault : Fault)
  deriving DecidableEq, Repr

structure Outcome where
  store : Store
  ending : Ending
  deriving DecidableEq

structure Loop where
  head : Nat
  statement : Statement
  close : Nat
  control : String
  target : Operand
  reach : UInt64
  passCount : UInt64
  deriving DecidableEq, Repr

namespace Loop

def bodyLength (loop : Loop) : Nat := loop.close - (loop.head + 1)

def passes (loop : Loop) : Nat := loop.passCount.toNat

end Loop

inductive Event where
  | dispatch (index : Nat) (statement : Statement)
  | enter (loop : Loop)
  | leave (loop : Loop)
  deriving DecidableEq, Repr

inductive State where
  | walk (cursor : Nat) (loops : List Loop) (store : Store) (report : Report)
  | check (loop : Loop) (outer : List Loop) (store : Store) (report : Report)
  deriving DecidableEq

inductive Step where
  | next (events : List Event) (state : State)
  | halt (events : List Event) (outcome : Outcome)
  deriving DecidableEq

namespace Machine

def blockEnd (program : Program) : List Loop → Nat
  | [] => program.size
  | loop :: _ => loop.close

def current? (program : Program) (loops : List Loop) (cursor : Nat) : Option Statement :=
  if cursor < blockEnd program loops then program[cursor]? else none

/- Of several faults in one header the control comes first, then the target,
then the missing end. The body is looked for inside the enclosing block. -/
def openLoop (program : Program) (loops : List Loop) (head : Nat) (statement : Statement)
    (control : String) (target : Operand) (store : Store) : Except Cause Loop := do
  if store.contains control then
    let reach ← target.value store
    match Nesting.closing? (Nesting.between program (head + 1) (blockEnd program loops)) with
    | some length => return ⟨head, statement, head + 1 + length, control, target, reach, 0⟩
    | none => throw .missingEnd
  else throw (.undefinedVariable control)

def fail (events : List Event) (statement : Statement) (cause : Cause) (store : Store) : Step :=
  .halt events ⟨store, .failed (statement.fault cause)⟩

def dispatch (program : Program) (index : Nat) (statement : Statement) (loops : List Loop)
    (store : Store) (report : Report) : Step :=
  let counted := { report with statementCount := report.statementCount + 1 }
  let seen := Event.dispatch index statement
  match statement.instruction with
  | .act action name =>
    match statement.act action name store with
    | .ok store => .next [seen] (.walk (index + 1) loops store counted)
    | .error cause => fail [seen] statement cause store
  | .loop control target =>
    match openLoop program loops index statement control target store with
    | .ok loop => .next [seen, .enter loop] (.check loop loops store counted)
    | .error cause => fail [seen] statement cause store
  | .close => fail [seen] statement .redundantEnd store
  | .malformed keyword problem => fail [seen] statement (problem.cause keyword) store
  | .unknown word => fail [seen] statement (.undefinedOperation word) store

def finishBlock (loops : List Loop) (store : Store) (report : Report) : Step :=
  match loops with
  | [] => .halt [] ⟨store, .done report⟩
  | loop :: outer =>
    match loop.target.value store with
    | .ok reach =>
      let counted := { loop with reach := reach, passCount := loop.passCount + 1 }
      .next [] (.check counted outer store report)
    | .error cause => fail [] loop.statement cause store

def test (loop : Loop) (outer : List Loop) (store : Store) (report : Report) : Step :=
  if store.get? loop.control = some loop.reach then
    .next [.leave loop] (.walk (loop.close + 1) outer store
      { report with iterationCount := report.iterationCount + loop.passCount })
  else .next [] (.walk (loop.head + 1) (loop :: outer) store report)

def step (program : Program) : State → Step
  | .walk cursor loops store report =>
    match current? program loops cursor with
    | some statement => dispatch program cursor statement loops store report
    | none => finishBlock loops store report
  | .check loop outer store report => test loop outer store report

/- The limit counts steps. No outcome means that the limit was reached first,
which says nothing about whether the program ends. -/
def run (program : Program) : Nat → State → Option Outcome
  | 0, _ => none
  | limit + 1, state =>
    match step program state with
    | .next _ state => run program limit state
    | .halt _ outcome => some outcome

def record (program : Program) : Nat → State → List Event → Option (List Event × Outcome)
  | 0, _, _ => none
  | limit + 1, state, past =>
    match step program state with
    | .next events state => record program limit state (events.reverse ++ past)
    | .halt events outcome => some ((events.reverse ++ past).reverse, outcome)

theorem recordOutcome (program : Program) (limit : Nat) (state : State) (past : List Event) :
    (record program limit state past).map Prod.snd = run program limit state := by
  induction limit generalizing state past with
  | zero => rfl
  | succ limit ih =>
    simp only [record, run]
    split
    · exact ih _ _
    · rfl

theorem runFurther {program : Program} {limit : Nat} {state : State} {outcome : Outcome}
    (h : run program limit state = some outcome) (more : Nat) :
    run program (limit + more) state = some outcome := by
  induction limit generalizing state with
  | zero => simp [run] at h
  | succ limit ih =>
    rw [Nat.succ_add]
    simp only [run] at h ⊢
    split at h
    · exact ih h
    · exact h

end Machine

namespace Program

def start (store : Store) : State := .walk 0 [] store .zero

def run (program : Program) (limit : Nat) (store : Store) : Option Outcome :=
  Machine.run program limit (start store)

def trace (program : Program) (limit : Nat) (store : Store) : Option (List Event × Outcome) :=
  Machine.record program limit (start store) []

theorem traceOutcome (program : Program) (limit : Nat) (store : Store) :
    (program.trace limit store).map Prod.snd = program.run limit store :=
  Machine.recordOutcome program limit (start store) []

end Program

end CounterLang
