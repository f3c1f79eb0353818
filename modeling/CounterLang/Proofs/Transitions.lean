import CounterLang.Machine

/-! What one step of the machine can do. A step that goes on has one of five forms
and one that ends has one of three; the two relations list them with everything
that holds there, and later proofs go by their cases and not by the step itself. -/
namespace CounterLang

def Store.header (store : Store) (control : String) (target : Operand) : Except Cause UInt64 :=
  if store.contains control then target.value store else .error (.undefinedVariable control)

/- The cause that a statement raises when it is dispatched. Only a loop header
looks at whether a closing statement matches it, and it does so last. -/
def Statement.raises (statement : Statement) (closed : Bool) (store : Store) : Option Cause :=
  match statement.instruction with
  | .act action name =>
    match statement.act action name store with
    | .ok _ => none
    | .error cause => some cause
  | .loop control target =>
    match store.header control target with
    | .ok _ => if closed then none else some .missingEnd
    | .error cause => some cause
  | .close => some .redundantEnd
  | .malformed keyword problem => some (problem.cause keyword)
  | .unknown word => some (.undefinedOperation word)

/- What a word of 64 bits says of a number of steps: the number itself as long as it fits. -/
structure Tells (told number : Nat) : Prop where
  wrapped : told = number % UInt64.size
  exact : number < UInt64.size → told = number

theorem tellsMod {told number : Nat} (wrapped : told = number % UInt64.size) :
    Tells told number :=
  ⟨wrapped, fun fits => wrapped.trans (Nat.mod_eq_of_lt fits)⟩

theorem tellsWord (number : Nat) : Tells (UInt64.ofNat number).toNat number :=
  tellsMod UInt64.toNat_ofNat'

def Report.dispatched (report : Report) : Report :=
  { report with statementCount := report.statementCount + 1 }

def Report.left (report : Report) (loop : Loop) : Report :=
  { report with iterationCount := report.iterationCount + loop.passCount }

def Loop.again (loop : Loop) (reach : UInt64) : Loop :=
  { loop with reach := reach, passCount := loop.passCount + 1 }

theorem passesTold {loop : Loop} {made : Nat} (counted : loop.passCount = .ofNat made) :
    Tells loop.passes made := by
  rw [Loop.passes, counted]
  exact tellsWord made

theorem againCounted {loop : Loop} {made : Nat} (counted : loop.passCount = .ofNat made)
    (reach : UInt64) : (loop.again reach).passCount = .ofNat (made + 1) :=
  (congrArg (· + 1) counted).trans (UInt64.ofNat_add made 1).symm

namespace Machine

def bodyLength? (program : Program) (loops : List Loop) (head : Nat) : Option Nat :=
  Nesting.closing? (Nesting.between program (head + 1) (blockEnd program loops))

inductive Moves (program : Program) : State → List Event → State → Prop where
  | act {cursor loops store report statement action name next}
      (found : current? program loops cursor = some statement)
      (form : statement.instruction = .act action name)
      (done : statement.act action name store = .ok next) :
      Moves program (.walk cursor loops store report) [.dispatch cursor statement]
        (.walk (cursor + 1) loops next report.dispatched)
  | enter {cursor loops store report statement control target reach length}
      (found : current? program loops cursor = some statement)
      (form : statement.instruction = .loop control target)
      (opened : store.header control target = .ok reach)
      (closed : bodyLength? program loops cursor = some length) :
      Moves program (.walk cursor loops store report)
        [.dispatch cursor statement,
          .enter ⟨cursor, statement, cursor + 1 + length, control, target, reach, 0⟩]
        (.check ⟨cursor, statement, cursor + 1 + length, control, target, reach, 0⟩ loops store
          report.dispatched)
  | again {cursor loop outer store report reach}
      (ended : current? program (loop :: outer) cursor = none)
      (read : loop.target.value store = .ok reach) :
      Moves program (.walk cursor (loop :: outer) store report) []
        (.check (loop.again reach) outer store report)
  | leave {loop outer store report} (equal : store.get? loop.control = some loop.reach) :
      Moves program (.check loop outer store report) [.leave loop]
        (.walk (loop.close + 1) outer store (report.left loop))
  | pass {loop outer store report} (differs : store.get? loop.control ≠ some loop.reach) :
      Moves program (.check loop outer store report) []
        (.walk (loop.head + 1) (loop :: outer) store report)

inductive Halts (program : Program) : State → List Event → Outcome → Prop where
  | finish {cursor store report} (ended : current? program [] cursor = none) :
      Halts program (.walk cursor [] store report) [] ⟨store, .done report⟩
  | refuse {cursor loops store report statement cause}
      (found : current? program loops cursor = some statement)
      (refused : statement.raises (bodyLength? program loops cursor).isSome store = some cause) :
      Halts program (.walk cursor loops store report) [.dispatch cursor statement]
        ⟨store, .failed (statement.fault cause)⟩
  | lost {cursor loop outer store report cause}
      (ended : current? program (loop :: outer) cursor = none)
      (unread : loop.target.value store = .error cause) :
      Halts program (.walk cursor (loop :: outer) store report) []
        ⟨store, .failed (loop.statement.fault cause)⟩

theorem openLoopCases (program : Program) (loops : List Loop) (head : Nat) (statement : Statement)
    (control : String) (target : Operand) (store : Store) :
    openLoop program loops head statement control target store =
      match store.header control target with
      | .error cause => .error cause
      | .ok reach =>
        match bodyLength? program loops head with
        | some length => .ok ⟨head, statement, head + 1 + length, control, target, reach, 0⟩
        | none => .error .missingEnd := by
  unfold openLoop Store.header bodyLength?
  split
  · cases target.value store with
    | error cause => rfl
    | ok reach =>
      simp only [bind, Except.bind]
      cases Nesting.closing? (Nesting.between program (head + 1) (blockEnd program loops)) <;> rfl
  · rfl

theorem stepMoves {program state events next} (h : Moves program state events next) :
    step program state = .next events next := by
  cases h with
  | act found form done => simp only [step, found, dispatch, form, done, Report.dispatched]
  | enter found form opened closed =>
    simp only [step, found, dispatch, form, openLoopCases, opened, closed, Report.dispatched]
  | again ended read => simp only [step, ended, finishBlock, read, Loop.again]
  | leave equal => simp only [step, test, equal, if_true, Report.left]
  | pass differs => simp only [step, test, differs, if_false]

theorem stepHalts {program state events outcome} (h : Halts program state events outcome) :
    step program state = .halt events outcome := by
  cases h with
  | finish ended => simp only [step, ended, finishBlock]
  | lost ended unread => simp only [step, ended, finishBlock, unread, fail]
  | @refuse cursor loops store report statement cause found refused =>
    simp only [step, found, dispatch, fail]
    unfold Statement.raises at refused
    cases form : statement.instruction with
    | act action name =>
      simp only [form] at refused ⊢
      split at refused <;> cases refused
      simp only [*]
    | loop control target =>
      simp only [form, openLoopCases] at refused ⊢
      cases opened : store.header control target with
      | error cause => simp only [opened] at refused ⊢; cases refused; rfl
      | ok reach =>
        simp only [opened] at refused ⊢
        cases closed : bodyLength? program loops cursor with
        | some length => simp [closed] at refused
        | none => simp only [closed] at refused ⊢; cases refused; rfl
    | close => simp only [form] at refused ⊢; cases refused; rfl
    | malformed keyword problem => simp only [form] at refused ⊢; cases refused; rfl
    | unknown word => simp only [form] at refused ⊢; cases refused; rfl

theorem movesOrHalts (program : Program) (state : State) :
    (∃ events next, Moves program state events next) ∨
      ∃ events outcome, Halts program state events outcome := by
  cases state with
  | check loop outer store report =>
    by_cases equal : store.get? loop.control = some loop.reach
    · exact .inl ⟨_, _, .leave equal⟩
    · exact .inl ⟨_, _, .pass equal⟩
  | walk cursor loops store report =>
    cases found : current? program loops cursor with
    | none =>
      cases loops with
      | nil => exact .inr ⟨_, _, .finish found⟩
      | cons loop outer =>
        cases read : loop.target.value store with
        | ok reach => exact .inl ⟨_, _, .again found read⟩
        | error cause => exact .inr ⟨_, _, .lost found read⟩
    | some statement =>
      cases refused : statement.raises (bodyLength? program loops cursor).isSome store with
      | some cause => exact .inr ⟨_, _, .refuse found refused⟩
      | none =>
        unfold Statement.raises at refused
        cases form : statement.instruction with
        | act action name =>
          simp only [form] at refused
          cases done : statement.act action name store with
          | ok next => exact .inl ⟨_, _, .act found form done⟩
          | error cause => simp [done] at refused
        | loop control target =>
          simp only [form] at refused
          cases opened : store.header control target with
          | error cause => simp [opened] at refused
          | ok reach =>
            cases closed : bodyLength? program loops cursor with
            | none => simp [opened, closed] at refused
            | some length => exact .inl ⟨_, _, .enter found form opened closed⟩
        | close => simp [form] at refused
        | malformed keyword problem => simp [form] at refused
        | unknown word => simp [form] at refused

end Machine
end CounterLang
