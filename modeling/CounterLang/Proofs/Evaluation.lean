import CounterLang.Proofs.Blocks
import CounterLang.Proofs.Definedness

/-! Evaluation of blocks as trees, without positions and without a cached target.
The items of a block are evaluated from left to right and the first fault ends
it all. Each evaluated item counts as a statement and each pass as an iteration. -/
namespace CounterLang

instance : Add Report where
  add first second :=
    ⟨first.statementCount + second.statementCount, first.iterationCount + second.iterationCount⟩

theorem reportExt {first second : Report}
    (statements : first.statementCount = second.statementCount)
    (iterations : first.iterationCount = second.iterationCount) : first = second := by
  cases first
  cases second
  cases statements
  cases iterations
  rfl

theorem reportAssoc (first second third : Report) :
    first + second + third = first + (second + third) :=
  reportExt (UInt64.add_assoc _ _ _) (UInt64.add_assoc _ _ _)

theorem reportComm (first second : Report) : first + second = second + first :=
  reportExt (UInt64.add_comm _ _) (UInt64.add_comm _ _)

instance : @Std.Associative Report (· + ·) := ⟨reportAssoc⟩

instance : @Std.Commutative Report (· + ·) := ⟨reportComm⟩

theorem zeroReport (report : Report) : Report.zero + report = report :=
  reportExt (UInt64.zero_add _) (UInt64.zero_add _)

theorem reportZero (report : Report) : report + Report.zero = report := by
  rw [reportComm, zeroReport]

def Report.ofCounts (statements iterations : Nat) : Report :=
  ⟨.ofNat statements, .ofNat iterations⟩

theorem countsSum (statements iterations more further : Nat) :
    Report.ofCounts statements iterations + .ofCounts more further =
      .ofCounts (statements + more) (iterations + further) :=
  reportExt (UInt64.ofNat_add _ _).symm (UInt64.ofNat_add _ _).symm

theorem reportDispatched (report : Report) : report.dispatched = report + ⟨1, 0⟩ :=
  reportExt rfl (UInt64.add_zero _).symm

theorem reportLeft (report : Report) (loop : Loop) :
    report.left loop = report + ⟨0, loop.passCount⟩ :=
  reportExt (UInt64.add_zero _).symm rfl

theorem reportAgain (loop : Loop) (reach : UInt64) :
    (⟨0, (loop.again reach).passCount⟩ : Report) = ⟨0, 1⟩ + ⟨0, loop.passCount⟩ :=
  reportExt rfl (UInt64.add_comm _ _)

def Outcome.behind (report : Report) (outcome : Outcome) : Outcome :=
  match outcome.ending with
  | .done more => ⟨outcome.store, .done (report + more)⟩
  | .failed fault => ⟨outcome.store, .failed fault⟩

theorem behindZero (outcome : Outcome) : outcome.behind .zero = outcome := by
  obtain ⟨store, report | fault⟩ := outcome
  · exact congrArg (fun report => Outcome.mk store (.done report)) (zeroReport report)
  · rfl

inductive Progress where
  | through (store : Store) (report : Report)
  | stopped (store : Store) (fault : Fault)

namespace Progress

def after (report : Report) : Progress → Progress
  | .through store more => .through store (report + more)
  | .stopped store fault => .stopped store fault

def store : Progress → Store
  | .through store _ => store
  | .stopped store _ => store

theorem afterStore (report : Report) (progress : Progress) :
    (progress.after report).store = progress.store := by
  cases progress <;> rfl

end Progress

inductive Task where
  | block (block : Block)
  | turns (control : String) (target : Operand) (body : Block)

inductive Evaluates : Task → Store → Progress → Prop where
  | done {store} : Evaluates (.block .done) store (.through store .zero)
  | act {statement action name rest store next progress}
      (form : statement.instruction = .act action name)
      (acted : statement.act action name store = .ok next)
      (later : Evaluates (.block rest) next progress) :
      Evaluates (.block (.simple statement rest)) store (progress.after ⟨1, 0⟩)
  | refuse {statement rest store cause} (refused : statement.raises true store = some cause) :
      Evaluates (.block (.simple statement rest)) store (.stopped store (statement.fault cause))
  | shut {head body close rest store cause} (refused : head.raises true store = some cause) :
      Evaluates (.block (.loop head body close rest)) store (.stopped store (head.fault cause))
  | loop {head body close rest control target reach store next report progress}
      (form : head.instruction = .loop control target)
      (opened : store.header control target = .ok reach)
      (turns : Evaluates (.turns control target body) store (.through next report))
      (later : Evaluates (.block rest) next progress) :
      Evaluates (.block (.loop head body close rest)) store (progress.after (⟨1, 0⟩ + report))
  | loopStopped {head body close rest control target reach store next fault}
      (form : head.instruction = .loop control target)
      (opened : store.header control target = .ok reach)
      (turns : Evaluates (.turns control target body) store (.stopped next fault)) :
      Evaluates (.block (.loop head body close rest)) store (.stopped next fault)
  | leave {control target body reach store} (read : target.value store = .ok reach)
      (equal : store.get? control = some reach) :
      Evaluates (.turns control target body) store (.through store .zero)
  | pass {control target body reach store next report progress}
      (read : target.value store = .ok reach) (differs : store.get? control ≠ some reach)
      (inner : Evaluates (.block body) store (.through next report))
      (later : Evaluates (.turns control target body) next progress) :
      Evaluates (.turns control target body) store (progress.after (report + ⟨0, 1⟩))
  | passStopped {control target body reach store next fault}
      (read : target.value store = .ok reach) (differs : store.get? control ≠ some reach)
      (inner : Evaluates (.block body) store (.stopped next fault)) :
      Evaluates (.turns control target body) store (.stopped next fault)

/- A program is evaluated by its block. When the block is through, what is left
over is met and raises its fault. -/
inductive Concludes : Block → List Statement → Store → Outcome → Prop where
  | stopped {block remainder store last fault}
      (inner : Evaluates (.block block) store (.stopped last fault)) :
      Concludes block remainder store ⟨last, .failed fault⟩
  | done {block store last report}
      (inner : Evaluates (.block block) store (.through last report)) :
      Concludes block [] store ⟨last, .done report⟩
  | stuck {block statement rest store last report cause}
      (inner : Evaluates (.block block) store (.through last report))
      (refused : statement.raises false last = some cause) :
      Concludes block (statement :: rest) store ⟨last, .failed (statement.fault cause)⟩

theorem evaluatesNames {task store progress} (h : Evaluates task store progress) :
    store.names <+: progress.store.names := by
  induction h with
  | done => exact List.prefix_rfl
  | act form acted later ih =>
    rw [Progress.afterStore]
    exact (actNames acted).trans ih
  | refuse refused => exact List.prefix_rfl
  | shut refused => exact List.prefix_rfl
  | loop form opened turns later first second =>
    rw [Progress.afterStore]
    exact first.trans second
  | loopStopped form opened turns ih => exact ih
  | leave read equal => exact List.prefix_rfl
  | pass read differs inner later first second =>
    rw [Progress.afterStore]
    exact first.trans second
  | passStopped read differs inner ih => exact ih

theorem raisesSimple {statement : Statement} (opens : statement.opens = false)
    (closed other : Bool) (store : Store) :
    statement.raises closed store = statement.raises other store := by
  unfold Statement.raises
  cases form : statement.instruction with
  | loop control target =>
    simp [Statement.opens, Instruction.opens, Instruction.keyword?, form] at opens
  | act action name => rfl
  | close => rfl
  | malformed keyword problem => rfl
  | unknown word => rfl

theorem simpleCases {statement : Statement} (opens : statement.opens = false) (store : Store) :
    (∃ action name next, statement.instruction = .act action name ∧
      statement.act action name store = .ok next) ∨
      ∃ cause, ∀ closed, statement.raises closed store = some cause := by
  unfold Statement.raises
  cases form : statement.instruction with
  | act action name =>
    cases acted : statement.act action name store with
    | ok next => exact .inl ⟨action, name, next, rfl, acted⟩
    | error cause => exact .inr ⟨cause, fun _ => by simp only [acted]⟩
  | loop control target =>
    simp [Statement.opens, Instruction.opens, Instruction.keyword?, form] at opens
  | close => exact .inr ⟨_, fun _ => rfl⟩
  | malformed keyword problem => exact .inr ⟨_, fun _ => rfl⟩
  | unknown word => exact .inr ⟨_, fun _ => rfl⟩

theorem headerCases {head : Statement} (opens : head.opens = true) (store : Store) :
    (∃ control target reach, head.instruction = .loop control target ∧
      store.header control target = .ok reach ∧ head.raises true store = none ∧
      head.raises false store = some .missingEnd) ∨
      ∃ cause, ∀ closed, head.raises closed store = some cause := by
  unfold Statement.raises
  cases form : head.instruction with
  | act action name =>
    simp [Statement.opens, Instruction.opens, Instruction.keyword?, form] at opens
  | loop control target =>
    cases opened : store.header control target with
    | ok reach =>
      exact .inl ⟨control, target, reach, rfl, opened, by simp [opened], by simp [opened]⟩
    | error cause => exact .inr ⟨cause, fun _ => by simp only [opened]⟩
  | close => simp [Statement.opens, Instruction.opens, Instruction.keyword?, form] at opens
  | malformed keyword problem => exact .inr ⟨_, fun _ => rfl⟩
  | unknown word => exact .inr ⟨_, fun _ => rfl⟩

theorem raisesAlways {statement : Statement} {closed : Bool} {store : Store} {cause : Cause}
    (refused : statement.raises closed store = some cause)
    (other : closed = true ∨ cause ≠ .missingEnd) (anyway : Bool) :
    statement.raises anyway store = some cause := by
  cases opens : statement.opens with
  | false => exact raisesSimple opens anyway closed store ▸ refused
  | true =>
    rcases headerCases opens store with ⟨_, _, _, _, _, shut, missing⟩ | ⟨same, always⟩
    · cases closed with
      | true =>
        rw [shut] at refused
        contradiction
      | false =>
        rw [missing] at refused
        have same := (Option.some.inj refused).symm
        rcases other with no | other <;> contradiction
    · rw [always] at refused ⊢
      exact refused

theorem closeCases {statement : Statement} (closes : statement.closes = true) (store : Store) :
    ∃ cause, ∀ closed, statement.raises closed store = some cause := by
  rcases simpleCases (Nesting.opensNotCloses closes) store with ⟨action, name, _, form, _⟩ | refused
  · simp [Statement.closes, Instruction.closes, Instruction.keyword?, form] at closes
  · exact refused

theorem stuckRaises {statement : Statement} {rest : List Statement}
    (stuck : Stuck (statement :: rest)) (store : Store) :
    ∃ cause, statement.raises false store = some cause := by
  rcases stuck with closes | ⟨opens, _⟩
  · obtain ⟨cause, refused⟩ := closeCases closes store
    exact ⟨cause, refused false⟩
  · rcases headerCases opens store with ⟨_, _, _, _, _, _, refused⟩ | ⟨cause, refused⟩
    · exact ⟨.missingEnd, refused⟩
    · exact ⟨cause, refused false⟩

theorem stuckRefuses {statement : Statement} {rest : List Statement} {store : Store}
    {cause : Cause} (stuck : Stuck (statement :: rest))
    (refused : statement.raises false store = some cause) :
    statement.raises (Nesting.closing? rest).isSome store = some cause := by
  rcases stuck with closes | ⟨_, unmatched⟩
  · exact raisesSimple (Nesting.opensNotCloses closes) false _ store ▸ refused
  · rw [unmatchedClosing.mp unmatched]
    exact refused

theorem concludesSome {block : Block} {remainder : List Statement} {store : Store}
    {progress : Progress} (inner : Evaluates (.block block) store progress)
    (stuck : Stuck remainder) : ∃ outcome, Concludes block remainder store outcome := by
  cases progress with
  | stopped last fault => exact ⟨_, .stopped inner⟩
  | through last report =>
    cases remainder with
    | nil => exact ⟨_, .done inner⟩
    | cons statement rest =>
      obtain ⟨cause, refused⟩ := stuckRaises stuck last
      exact ⟨_, .stuck inner refused⟩

end CounterLang
