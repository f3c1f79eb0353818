import CounterLang.Proofs.Evaluation
import CounterLang.Proofs.OpenLoops

/-! The flat machine does what the evaluation of trees says. A block that lies in the
program is walked from its first statement to the one behind it, at whatever
position and within whatever open loops; a run that ends has evaluated it. -/
namespace CounterLang
namespace Machine
open Nesting

def Leads (program : Program) (state next : State) : Prop :=
  ∃ steps, ∀ limit, run program (steps + limit) state = run program limit next

theorem leadsSelf (program : Program) (state : State) : Leads program state state :=
  ⟨0, fun limit => by rw [Nat.zero_add]⟩

theorem leadsMoves {program state events next last} (moves : Moves program state events next)
    (later : Leads program next last) : Leads program state last := by
  obtain ⟨steps, later⟩ := later
  refine ⟨steps + 1, fun limit => ?_⟩
  rw [Nat.add_right_comm, run, stepMoves moves]
  exact later limit

theorem leadsTrans {program state middle last} (first : Leads program state middle)
    (second : Leads program middle last) : Leads program state last := by
  obtain ⟨steps, first⟩ := first
  obtain ⟨more, second⟩ := second
  exact ⟨steps + more, fun limit => by rw [Nat.add_assoc, first, second]⟩

theorem leadsEnds {program state next outcome} (leads : Leads program state next) :
    Ends program state outcome ↔ Ends program next outcome := by
  obtain ⟨steps, leads⟩ := leads
  apply Iff.intro
  · intro ⟨limit, h⟩
    have more := runFurther h steps
    rw [Nat.add_comm, leads] at more
    exact ⟨limit, more⟩
  · intro ⟨limit, h⟩
    exact ⟨steps + limit, by rw [leads, h]⟩

theorem leadsRun {program state next outcome limit} (leads : Leads program state next)
    (h : run program limit state = some outcome) : run program limit next = some outcome := by
  obtain ⟨steps, leads⟩ := leads
  rw [← leads, Nat.add_comm]
  exact runFurther h steps

def Reaches (program : Program) (state : State) (exit : Store → Report → State) :
    Progress → Prop
  | .through store report => Leads program state (exit store report)
  | .stopped store fault => Ends program state ⟨store, .failed fault⟩

theorem reachesAfter {program state exit report progress}
    (h : Reaches program state (fun store more => exit store (report + more)) progress) :
    Reaches program state exit (progress.after report) := by
  cases progress with
  | through store more => exact h
  | stopped store fault => exact h

theorem reachesLeads {program state middle exit progress} (leads : Leads program state middle)
    (h : Reaches program middle exit progress) : Reaches program state exit progress := by
  cases progress with
  | through store more => exact leadsTrans leads h
  | stopped store fault => exact (leadsEnds leads).mpr h

theorem reachesExit {program state exit other progress}
    (h : Reaches program state exit progress)
    (same : ∀ store report, exit store report = other store report) :
    Reaches program state other progress := by
  have equal : exit = other := funext fun store => funext fun report => same store report
  exact equal ▸ h

theorem walkSame {cursor other : Nat} {loops : List Loop} {store : Store} {report also : Report}
    (place : cursor = other) (counts : report = also) :
    State.walk cursor loops store report = .walk other loops store also := by
  rw [place, counts]

structure Laid (program : Program) (loops : List Loop) (cursor : Nat) (block : Block) : Prop where
  sound : block.Sound
  here : block.flatten <+: program.toList.drop cursor
  inside : cursor + block.size ≤ blockEnd program loops

theorem dropCons {program : Program} {cursor : Nat} {statement : Statement}
    {rest : List Statement} (here : statement :: rest <+: program.toList.drop cursor) :
    program[cursor]? = some statement ∧ rest <+: program.toList.drop (cursor + 1) := by
  obtain ⟨after, same⟩ := here
  have first : program[cursor]? = some statement := by
    rw [← Array.getElem?_toList, ← Nat.add_zero cursor, ← List.getElem?_drop, ← same]
    rfl
  have later : program.toList.drop (cursor + 1) = rest ++ after := by
    rw [← List.drop_drop, ← same]
    rfl
  exact ⟨first, after, later.symm⟩

theorem dropAppend {program : Program} {cursor : Nat} {front back : List Statement}
    (here : front ++ back <+: program.toList.drop cursor) :
    front <+: program.toList.drop cursor ∧
      back <+: program.toList.drop (cursor + front.length) := by
  obtain ⟨after, same⟩ := here
  have later : program.toList.drop (cursor + front.length) = back ++ after := by
    rw [← List.drop_drop, ← same, List.append_assoc, List.drop_left]
  exact ⟨⟨back ++ after, by rw [← List.append_assoc, same]⟩, after, later.symm⟩

theorem betweenPart {program : Program} {start : Nat} {block : Block}
    (here : block.flatten <+: program.toList.drop start) :
    between program start (start + block.size) = block.flatten := by
  rw [betweenSpan, Nat.add_sub_cancel_left]
  exact (List.prefix_iff_eq_take.mp here).symm

theorem laidSimple {program : Program} {loops : List Loop} {cursor : Nat} {statement : Statement}
    {rest : Block} (laid : Laid program loops cursor (.simple statement rest)) :
    current? program loops cursor = some statement ∧ Laid program loops (cursor + 1) rest := by
  obtain ⟨sound, here, inside⟩ := laid
  obtain ⟨found, later⟩ := dropCons here
  rw [Block.sizeSimple] at inside
  exact ⟨currentSome.mpr ⟨by omega, found⟩, sound.2.2, later, by omega⟩

structure LaidLoop (program : Program) (loops : List Loop) (cursor : Nat) (head : Statement)
    (body rest : Block) : Prop where
  found : current? program loops cursor = some head
  closed : bodyLength? program loops cursor = some body.size
  inner : ∀ loop : Loop, loop.close = cursor + 1 + body.size →
    Laid program (loop :: loops) (cursor + 1) body
  later : Laid program loops (cursor + 1 + body.size + 1) rest

theorem laidLoop {program : Program} {loops : List Loop} {cursor : Nat}
    {head close : Statement} {body rest : Block}
    (laid : Laid program loops cursor (.loop head body close rest)) :
    LaidLoop program loops cursor head body rest := by
  obtain ⟨⟨_, closes, inner, sound⟩, here, inside⟩ := laid
  rw [Block.sizeLoop] at inside
  obtain ⟨found, later⟩ := dropCons here
  obtain ⟨front, back⟩ := dropAppend later
  rw [← Block.size] at back
  obtain ⟨shut, back⟩ := dropCons back
  have closed : bodyLength? program loops cursor = some body.size := by
    rw [bodyLength?, ← betweenAppend program (Nat.le_add_right _ body.size) (by omega),
      betweenPart front, betweenCons (by omega) shut]
    exact closingAfter (Block.soundLevel inner 0) closes _
  refine ⟨currentSome.mpr ⟨by omega, found⟩, closed, ?_, sound, back, by omega⟩
  intro loop stop
  exact ⟨inner, front, Nat.le_of_eq stop.symm⟩

structure Turning (program : Program) (loop : Loop) (outer : List Loop) (body : Block) : Prop where
  close : loop.close = loop.head + 1 + body.size
  inner : Laid program (loop :: outer) (loop.head + 1) body

theorem turningAgain {program : Program} {loop : Loop} {outer : List Loop} {body : Block}
    (turning : Turning program loop outer body) (reach : UInt64) :
    Turning program (loop.again reach) outer body := by
  obtain ⟨close, sound, here, inside⟩ := turning
  exact ⟨close, sound, here, inside⟩

/- Where the machine stands when it is to carry out a task, and where it is to stand
when the task is through. -/
inductive Entry (program : Program) :
    Task → Store → State → (Store → Report → State) → Prop where
  | walk {cursor loops block} (laid : Laid program loops cursor block) (store : Store)
      (report : Report) :
      Entry program (.block block) store (.walk cursor loops store report)
        fun next more => .walk (cursor + block.size) loops next (report + more)
  | check {loop outer body store} (turning : Turning program loop outer body)
      (read : loop.target.value store = .ok loop.reach) (report : Report) :
      Entry program (.turns loop.control loop.target body) store (.check loop outer store report)
        fun next more => .walk (loop.close + 1) outer next (report + more + ⟨0, loop.passCount⟩)

theorem actMoves {program : Program} {loops : List Loop} {cursor : Nat} {statement : Statement}
    {rest : Block} {action : Action} {name : String} {store next : Store}
    (laid : Laid program loops cursor (.simple statement rest))
    (form : statement.instruction = .act action name)
    (acted : statement.act action name store = .ok next) (report : Report) :
    Moves program (.walk cursor loops store report) [.dispatch cursor statement]
      (.walk (cursor + 1) loops next (report + ⟨1, 0⟩)) :=
  reportDispatched report ▸ .act (laidSimple laid).1 form acted

theorem enterMoves {program : Program} {loops : List Loop} {cursor : Nat}
    {head close : Statement} {body rest : Block} {control : String} {target : Operand}
    {reach : UInt64} {store : Store}
    (laid : Laid program loops cursor (.loop head body close rest))
    (form : head.instruction = .loop control target)
    (opened : store.header control target = .ok reach) (report : Report) :
    ∃ events loop, loop = ⟨cursor, head, cursor + 1 + body.size, control, target, reach, 0⟩ ∧
      Moves program (.walk cursor loops store report) events
        (.check loop loops store (report + ⟨1, 0⟩)) ∧
      Turning program loop loops body := by
  obtain ⟨found, closed, inner, _⟩ := laidLoop laid
  rw [← reportDispatched report]
  exact ⟨_, _, rfl, .enter found form opened closed, rfl, inner _ rfl⟩

theorem turnLeads {program : Program} {loop : Loop} {outer : List Loop} {body : Block}
    {store next : Store} {report more : Report} (turning : Turning program loop outer body)
    (read : loop.target.value store = .ok loop.reach)
    (inner : Evaluates (.block body) store (.through next more))
    (carried : Leads program (.walk (loop.head + 1) (loop :: outer) store report)
      (.walk (loop.head + 1 + body.size) (loop :: outer) next (report + more))) :
    ∃ reach, loop.target.value next = .ok reach ∧
      Leads program (.walk (loop.head + 1) (loop :: outer) store report)
        (.check (loop.again reach) outer next (report + more)) := by
  have names := evaluatesNames inner
  have defined := targetRead.mp ⟨_, read⟩
  have later : ∀ name ∈ loop.target.names, name ∈ next.names :=
    fun name member => names.subset (defined name member)
  obtain ⟨reach, again⟩ := targetRead.mpr later
  have ended : current? program (loop :: outer) (loop.head + 1 + body.size) = none :=
    if_neg (Nat.not_lt.mpr (Nat.le_of_eq turning.close))
  exact ⟨reach, again, leadsTrans carried (leadsMoves (.again ended again) (leadsSelf _ _))⟩

theorem evaluatesReaches {program : Program} {task : Task} {store : Store} {progress : Progress}
    (h : Evaluates task store progress) {state : State} {exit : Store → Report → State}
    (entry : Entry program task store state exit) : Reaches program state exit progress := by
  induction h generalizing state exit with
  | done =>
    cases entry with
    | walk laid _ report => exact (walkSame rfl (reportZero report)).symm ▸ leadsSelf _ _
  | @act statement action name rest store next progress form acted later ih =>
    cases entry with
    | @walk cursor loops _ laid _ report =>
      apply reachesAfter
      apply reachesLeads (leadsMoves (actMoves laid form acted report) (leadsSelf _ _))
      refine reachesExit (ih (.walk (laidSimple laid).2 _ _)) fun last more => ?_
      exact walkSame (by rw [Block.sizeSimple]; omega) (reportAssoc _ _ _)
  | @refuse statement rest store cause refused =>
    cases entry with
    | walk laid =>
      have found := (laidSimple laid).1
      exact (endsHalts (.refuse found (raisesAlways refused (.inl rfl) _)) _).mpr rfl
  | @shut head body close rest store cause refused =>
    cases entry with
    | walk laid =>
      have found := (laidLoop laid).found
      exact (endsHalts (.refuse found (raisesAlways refused (.inl rfl) _)) _).mpr rfl
  | @loop head body close rest control target reach store next more progress form opened turns
      later first second =>
    cases entry with
    | @walk cursor loops _ laid _ report =>
      obtain ⟨events, loop, same, moves, turning⟩ := enterMoves laid form opened report
      subst same
      have turned := first (.check turning (headerRead opened) (report + ⟨1, 0⟩))
      apply reachesAfter
      apply reachesLeads (leadsMoves moves turned)
      refine reachesExit (second (.walk (laidLoop laid).later _ _)) fun last counts => ?_
      refine walkSame (by rw [Block.sizeLoop]; omega) ?_
      ac_rfl
  | @loopStopped head body close rest control target reach store next fault form opened turns ih =>
    cases entry with
    | @walk cursor loops _ laid _ report =>
      obtain ⟨events, loop, same, moves, turning⟩ := enterMoves laid form opened report
      subst same
      exact (endsMoves moves _).mpr (ih (.check turning (headerRead opened) _))
  | @leave control target body reach store read equal =>
    cases entry with
    | @check loop outer _ _ turning now report =>
      rw [now] at read
      cases read
      have counts : report.left loop = report + .zero + ⟨0, loop.passCount⟩ := by
        rw [reportLeft, reportZero]
      exact leadsMoves (.leave equal) (walkSame rfl counts ▸ leadsSelf _ _)
  | @pass control target body reach store next more progress read differs inner later first
      second =>
    cases entry with
    | @check loop outer _ _ turning now report =>
      -- The reach kept since the last look is what the target is worth at this test.
      rw [now] at read
      cases read
      have carried := first (.walk turning.inner _ report)
      obtain ⟨reach, again, turned⟩ := turnLeads turning now inner carried
      apply reachesAfter
      apply reachesLeads (leadsMoves (.pass differs) turned)
      refine reachesExit (second (.check (turningAgain turning reach) again _))
        fun last counts => ?_
      refine walkSame rfl ?_
      rw [reportAgain]
      ac_rfl
  | @passStopped control target body reach store next fault read differs inner ih =>
    cases entry with
    | @check loop outer _ _ turning now report =>
      rw [now] at read
      cases read
      exact (endsMoves (.pass differs) _).mpr (ih (.walk turning.inner _ report))

theorem runEvaluates {program : Program} {task : Task} {store : Store} {state : State}
    {exit : Store → Report → State} {limit : Nat} {outcome : Outcome}
    (entry : Entry program task store state exit)
    (h : run program limit state = some outcome) : ∃ progress, Evaluates task store progress := by
  induction limit generalizing task store state exit with
  | zero =>
    rw [run] at h
    contradiction
  | succ limit ih =>
    cases entry with
    | @walk cursor loops block laid _ report =>
      cases block with
      | done => exact ⟨_, .done⟩
      | simple statement rest =>
        rcases simpleCases laid.sound.1 store with
          ⟨action, name, next, form, acted⟩ | ⟨cause, refused⟩
        · rw [run, stepMoves (actMoves laid form acted report)] at h
          obtain ⟨progress, later⟩ := ih (.walk (laidSimple laid).2 _ _) h
          exact ⟨_, .act form acted later⟩
        · exact ⟨_, .refuse (refused true)⟩
      | loop head body close rest =>
        rcases headerCases laid.sound.1 store with
          ⟨control, target, reach, form, opened, _⟩ | ⟨cause, refused⟩
        · obtain ⟨events, loop, same, moves, turning⟩ := enterMoves laid form opened report
          subst same
          rw [run, stepMoves moves] at h
          have entered := Entry.check turning (headerRead opened) (report + ⟨1, 0⟩)
          obtain ⟨progress, turns⟩ := ih entered h
          cases progress with
          | stopped next fault => exact ⟨_, .loopStopped form opened turns⟩
          | through next more =>
            -- The limit that is enough now is enough behind the loop as well.
            have left := leadsRun (evaluatesReaches turns entered) h
            obtain ⟨progress, later⟩ := ih (.walk (laidLoop laid).later _ _) left
            exact ⟨_, .loop form opened turns later⟩
        · exact ⟨_, .shut (refused true)⟩
    | @check loop outer body _ turning read report =>
      by_cases equal : store.get? loop.control = some loop.reach
      · exact ⟨_, .leave read equal⟩
      · rw [run, stepMoves (.pass equal)] at h
        have inside := Entry.walk turning.inner store report
        obtain ⟨progress, inner⟩ := ih inside h
        cases progress with
        | stopped next fault => exact ⟨_, .passStopped read equal inner⟩
        | through next more =>
          obtain ⟨reach, again, turned⟩ :=
            turnLeads turning read inner (evaluatesReaches inner inside)
          have left := leadsRun turned h
          obtain ⟨progress, later⟩ := ih (.check (turningAgain turning reach) again _) left
          exact ⟨_, .pass read equal inner later⟩

structure Rest (program : Program) (cursor : Nat) (block : Block) (remainder : List Statement) :
    Prop where
  bound : cursor ≤ program.size
  splits : Splits (program.toList.drop cursor) block remainder

theorem restSize {program : Program} {cursor : Nat} {block : Block} {remainder : List Statement}
    (rest : Rest program cursor block remainder) :
    cursor + block.size + remainder.length = program.size := by
  have length := congrArg List.length rest.splits.whole
  have bound := rest.bound
  rw [List.length_append, List.length_drop, program.length_toList] at length
  rw [Block.size]
  omega

theorem restLaid {program : Program} {cursor : Nat} {block : Block} {remainder : List Statement}
    (rest : Rest program cursor block remainder) : Laid program [] cursor block := by
  have whole := restSize rest
  refine ⟨rest.splits.sound, ⟨remainder, rest.splits.whole⟩, ?_⟩
  rw [blockEnd]
  omega

theorem restDone {program : Program} {cursor : Nat} {block : Block}
    (rest : Rest program cursor block []) : current? program [] (cursor + block.size) = none := by
  have whole := restSize rest
  rw [List.length_nil] at whole
  apply if_neg
  rw [blockEnd]
  omega

theorem restStuck {program : Program} {cursor : Nat} {block : Block} {statement : Statement}
    {after : List Statement} (rest : Rest program cursor block (statement :: after)) :
    current? program [] (cursor + block.size) = some statement ∧
      bodyLength? program [] (cursor + block.size) = closing? after := by
  have whole := restSize rest
  have here : program.toList.drop (cursor + block.size) = statement :: after := by
    rw [← List.drop_drop, ← rest.splits.whole, Block.size, List.drop_left]
  obtain ⟨found, _⟩ := dropCons ⟨[], by rw [List.append_nil, here]⟩
  refine ⟨currentSome.mpr ⟨?_, found⟩, ?_⟩
  · rw [List.length_cons] at whole
    rw [blockEnd]
    omega
  · rw [bodyLength?, blockEnd, betweenLast, ← List.drop_drop, here]
    rfl

theorem concludesEnds {program : Program} {cursor : Nat} {block : Block}
    {remainder : List Statement} {store : Store} {outcome : Outcome}
    (rest : Rest program cursor block remainder)
    (concludes : Concludes block remainder store outcome) (report : Report) :
    Ends program (.walk cursor [] store report) (outcome.behind report) := by
  have entry := Entry.walk (restLaid rest) store report
  cases concludes with
  | stopped inner => exact evaluatesReaches inner entry
  | done inner =>
    have reached := evaluatesReaches inner entry
    exact (leadsEnds reached).mpr ((endsHalts (.finish (restDone rest)) _).mpr rfl)
  | stuck inner refused =>
    obtain ⟨found, closed⟩ := restStuck rest
    have reached := evaluatesReaches inner entry
    have refused := stuckRefuses rest.splits.stuck refused
    rw [← closed] at refused
    exact (leadsEnds reached).mpr ((endsHalts (.refuse found refused) _).mpr rfl)

theorem endsConcludes {program : Program} {cursor : Nat} {block : Block}
    {remainder : List Statement} (rest : Rest program cursor block remainder) (store : Store)
    (report : Report) (outcome : Outcome) :
    Ends program (.walk cursor [] store report) outcome ↔
      ∃ other, Concludes block remainder store other ∧ outcome = other.behind report := by
  apply Iff.intro
  · intro ends
    obtain ⟨limit, h⟩ := ends
    obtain ⟨progress, inner⟩ := runEvaluates (Entry.walk (restLaid rest) store report) h
    obtain ⟨other, concludes⟩ := concludesSome inner rest.splits.stuck
    exact ⟨other, concludes, endsOnce ⟨limit, h⟩ (concludesEnds rest concludes report)⟩
  · intro ⟨other, concludes, same⟩
    exact same ▸ concludesEnds rest concludes report

end Machine

namespace Program
open Machine

theorem finishesConcludes {program : Program} {block : Block} {remainder : List Statement}
    (splits : Splits program.toList block remainder) (store : Store) (outcome : Outcome) :
    program.Finishes store outcome ↔ Concludes block remainder store outcome := by
  have rest : Rest program 0 block remainder := ⟨Nat.zero_le _, splits⟩
  rw [finishesEnds, start, endsConcludes rest]
  refine ⟨?_, fun concludes => ⟨outcome, concludes, (behindZero outcome).symm⟩⟩
  intro found
  obtain ⟨other, concludes, same⟩ := found
  rw [same, behindZero]
  exact concludes

theorem treeDecidesRuns (program : Program) :
    ∃ block remainder,
      (∀ other left, Splits program.toList other left ↔ other = block ∧ left = remainder) ∧
      ∀ store outcome, program.Finishes store outcome ↔ Concludes block remainder store outcome := by
  have splits := Block.splitSplits program.toList
  refine ⟨_, _, ?_, finishesConcludes splits⟩
  intro other left
  apply Iff.intro
  · intro found
    have only := Block.splitOnly found
    rw [only]
    exact ⟨rfl, rfl⟩
  · intro ⟨block, remainder⟩
    rw [block, remainder]
    exact splits

end Program
end CounterLang
