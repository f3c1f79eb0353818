import CounterLang.Proofs.Brackets
import CounterLang.Proofs.Definedness
import CounterLang.Proofs.Runs

/-! The open loops of a running machine. Each stands between the brackets of the
loop around it, and the walk over a block has always come past whole blocks
only. So inside a loop every header finds its closing statement and no stray
one is met, and the names of an open header stay defined. -/
namespace CounterLang

def State.loops : State → List Loop
  | .walk _ loops _ _ => loops
  | .check loop outer _ _ => loop :: outer

def State.store : State → Store
  | .walk _ _ store _ => store
  | .check _ _ store _ => store

namespace Machine
open Nesting

def blockStart : List Loop → Nat
  | [] => 0
  | loop :: _ => loop.head + 1

structure Placed (program : Program) (outer : List Loop) (loop : Loop) : Prop where
  found : program[loop.head]? = some loop.statement
  form : loop.statement.instruction = .loop loop.control loop.target
  start : blockStart outer ≤ loop.head
  order : loop.head < loop.close
  stop : loop.close < blockEnd program outer
  before : level? 0 (between program (blockStart outer) loop.head) = some 0
  body : level? 0 (between program (loop.head + 1) loop.close) = some 0
  closes : ∃ close, program[loop.close]? = some close ∧ close.closes = true

def Nested (program : Program) : List Loop → Prop
  | [] => True
  | loop :: outer => Placed program outer loop ∧ Nested program outer

/- A walk has come past whole blocks only. A test looks at the target's value of
this very moment. -/
def InPlace (program : Program) : State → Prop
  | .walk cursor loops _ _ =>
    blockStart loops ≤ cursor ∧ cursor ≤ blockEnd program loops ∧
      level? 0 (between program (blockStart loops) cursor) = some 0
  | .check loop _ store _ => loop.target.value store = .ok loop.reach

structure Sound (program : Program) (state : State) : Prop where
  nested : Nested program state.loops
  defined : ∀ loop ∈ state.loops,
    ∃ reach, state.store.header loop.control loop.target = .ok reach
  place : InPlace program state

theorem nestedOuter {program : Program} {inner outer : List Loop}
    (nested : Nested program (inner ++ outer)) : Nested program outer := by
  induction inner with
  | nil => exact nested
  | cons loop inner ih => exact ih nested.2

theorem nestedEnd {program : Program} {loops : List Loop} (nested : Nested program loops) :
    blockEnd program loops ≤ program.size := by
  induction loops with
  | nil => exact Nat.le_refl _
  | cons loop outer ih => exact Nat.le_of_lt (Nat.lt_of_lt_of_le nested.1.stop (ih nested.2))

theorem currentSome {program : Program} {loops : List Loop} {cursor : Nat} {statement : Statement} :
    current? program loops cursor = some statement ↔
      cursor < blockEnd program loops ∧ program[cursor]? = some statement := by
  unfold current?
  split <;> simp [*]

theorem currentNone {program : Program} {loops : List Loop} {cursor : Nat}
    (nested : Nested program loops) :
    current? program loops cursor = none ↔ blockEnd program loops ≤ cursor := by
  have bound := nestedEnd nested
  unfold current?
  split
  · rw [Array.getElem?_eq_none_iff]
    omega
  · simp only [true_iff]
    omega

theorem loopOpens {statement : Statement} {control : String} {target : Operand}
    (form : statement.instruction = .loop control target) : statement.opens = true := by
  simp [Statement.opens, Instruction.opens, Instruction.keyword?, form]

theorem actSimple {statement : Statement} {action : Action} {name : String}
    (form : statement.instruction = .act action name) :
    statement.opens = false ∧ statement.closes = false := by
  simp [Statement.opens, Statement.closes, Instruction.opens, Instruction.closes,
    Instruction.keyword?, form]

theorem bodyPlaced {program : Program} {loops : List Loop} {cursor length : Nat}
    (bound : blockEnd program loops ≤ program.size)
    (closed : bodyLength? program loops cursor = some length) :
    cursor + 1 + length < blockEnd program loops ∧
      level? 0 (between program (cursor + 1) (cursor + 1 + length)) = some 0 ∧
      ∃ close, program[cursor + 1 + length]? = some close ∧ close.closes = true := by
  obtain ⟨body, close, rest, same, closes, level, size⟩ := closingSome.mp closed
  have whole := congrArg List.length same
  rw [betweenLength bound, List.length_append, List.length_cons] at whole
  have inside : cursor + 1 + length < blockEnd program loops := by omega
  have parts := same
  rw [← betweenAppend program (Nat.le_add_right _ length) (Nat.le_of_lt inside)] at parts
  have shorter : (between program (cursor + 1) (cursor + 1 + length)).length = body.length := by
    rw [betweenLength (by omega)]
    omega
  obtain ⟨front, back⟩ := List.append_inj parts shorter
  have found : program[cursor + 1 + length]? = some close := by
    have first := congrArg (fun list => list[0]?) back
    simp only [betweenSpan, List.getElem?_cons_zero] at first
    rw [List.getElem?_take_of_lt (by omega), List.getElem?_drop, Nat.add_zero,
      Array.getElem?_toList] at first
    exact first
  exact ⟨inside, front ▸ level, close, found, closes⟩

theorem soundStart (program : Program) (store : Store) :
    Sound program (Program.start store) where
  nested := trivial
  defined := by simp [Program.start, State.loops]
  place := ⟨Nat.le_refl 0, Nat.zero_le _, congrArg (level? 0) (betweenSelf program 0)⟩

theorem walkPast {program : Program} {loops : List Loop} {cursor : Nat} {statement : Statement}
    (start : blockStart loops ≤ cursor) (found : program[cursor]? = some statement)
    (opens : statement.opens = false) (closes : statement.closes = false)
    (before : level? 0 (between program (blockStart loops) cursor) = some 0) :
    level? 0 (between program (blockStart loops) (cursor + 1)) = some 0 := by
  rw [betweenSnoc start found, levelAppend, before, Option.bind_some, levelSimple opens closes]
  rfl

theorem loopPast {program : Program} {outer : List Loop} {loop : Loop}
    (placed : Placed program outer loop) :
    level? 0 (between program (blockStart outer) (loop.close + 1)) = some 0 := by
  obtain ⟨close, found, closes⟩ := placed.closes
  have order := placed.order
  have whole : between program loop.head (loop.close + 1) =
      loop.statement :: (between program (loop.head + 1) loop.close ++ close :: []) := by
    rw [betweenCons (by omega) placed.found, betweenSnoc order found]
  rw [← betweenAppend program placed.start (by omega), levelAppend, placed.before,
    Option.bind_some, whole, levelBlock (loopOpens placed.form) placed.body closes]
  rfl

theorem soundMoves {program state events next} (sound : Sound program state)
    (moves : Moves program state events next) : Sound program next := by
  obtain ⟨nested, defined, place⟩ := sound
  cases moves with
  | @act cursor loops store report statement action name next found form done =>
    obtain ⟨inside, stands⟩ := currentSome.mp found
    obtain ⟨opens, closes⟩ := actSimple form
    exact ⟨nested, fun loop member => headerStays (defined loop member) (actNames done),
      Nat.le_succ_of_le place.1, inside, walkPast place.1 stands opens closes place.2.2⟩
  | @enter cursor loops store report statement control target reach length found form opened
      closed =>
    obtain ⟨_, stands⟩ := currentSome.mp found
    obtain ⟨inside, body, close⟩ := bodyPlaced (nestedEnd nested) closed
    have placed : Placed program loops
        ⟨cursor, statement, cursor + 1 + length, control, target, reach, 0⟩ :=
      ⟨stands, form, place.1, by dsimp only; omega, inside, place.2.2, body, close⟩
    refine ⟨⟨placed, nested⟩, ?_, headerRead opened⟩
    intro loop member
    rcases List.mem_cons.mp member with same | old
    · subst loop
      exact ⟨reach, opened⟩
    · exact defined loop old
  | @again cursor loop outer store report reach ended read =>
    obtain ⟨placed, nested⟩ := nested
    refine ⟨⟨?_, nested⟩, ?_, read⟩
    · exact ⟨placed.found, placed.form, placed.start, placed.order, placed.stop, placed.before,
        placed.body, placed.closes⟩
    · intro other member
      rcases List.mem_cons.mp member with same | old
      · subst other
        exact defined loop List.mem_cons_self
      · exact defined other (List.mem_cons_of_mem _ old)
  | @leave loop outer store report equal =>
    obtain ⟨placed, nested⟩ := nested
    have start := placed.start
    have order := placed.order
    exact ⟨nested, fun other member => defined other (List.mem_cons_of_mem _ member),
      by omega, placed.stop, loopPast placed⟩
  | @pass loop outer store report differs =>
    exact ⟨nested, defined, Nat.le_refl _, nested.1.order, by rw [blockStart, betweenSelf]; rfl⟩

theorem restLevel {program : Program} {cursor : Nat} {loop : Loop} {outer : List Loop}
    {store : Store} {report : Report} {statement : Statement}
    (sound : Sound program (.walk cursor (loop :: outer) store report))
    (found : current? program (loop :: outer) cursor = some statement) :
    level? 0 (statement :: between program (cursor + 1) loop.close) = some 0 := by
  obtain ⟨⟨placed, _⟩, _, start, _, before⟩ := sound
  obtain ⟨inside, stands⟩ := currentSome.mp found
  dsimp only [blockStart, blockEnd] at start inside before
  have body := placed.body
  rw [← betweenAppend program start (Nat.le_of_lt inside), levelAppend, before,
    Option.bind_some, betweenCons inside stands] at body
  exact body

theorem noStray {program : Program} {cursor : Nat} {loop : Loop} {outer : List Loop}
    {store : Store} {report : Report} {statement : Statement}
    (sound : Sound program (.walk cursor (loop :: outer) store report))
    (found : current? program (loop :: outer) cursor = some statement) :
    statement.closes = false := by
  have level := restLevel sound found
  cases closes : statement.closes with
  | false => rfl
  | true =>
    rw [levelStray closes] at level
    contradiction

theorem bodyGlobal {program : Program} {cursor : Nat} {loops : List Loop} {store : Store}
    {report : Report} {statement : Statement}
    (sound : Sound program (.walk cursor loops store report))
    (found : current? program loops cursor = some statement) (opens : statement.opens = true) :
    bodyLength? program loops cursor = closing? (program.toList.drop (cursor + 1)) := by
  have bound := nestedEnd sound.nested
  obtain ⟨inside, _⟩ := currentSome.mp found
  cases loops with
  | nil => rw [bodyLength?, blockEnd, betweenLast]
  | cons loop outer =>
    have level := restLevel sound found
    rw [levelOpens opens] at level
    obtain ⟨length, closed⟩ := closingFound level
    have more := closingLocal closed (between program loop.close program.size)
    dsimp only [State.loops, blockEnd] at bound inside
    rw [betweenAppend program inside bound, betweenLast] at more
    rw [more]
    exact closed

theorem bodyInner {program : Program} {cursor : Nat} {loop : Loop} {outer : List Loop}
    {store : Store} {report : Report} {statement : Statement}
    (sound : Sound program (.walk cursor (loop :: outer) store report))
    (found : current? program (loop :: outer) cursor = some statement)
    (opens : statement.opens = true) :
    ∃ length, bodyLength? program (loop :: outer) cursor = some length := by
  have level := restLevel sound found
  rw [levelOpens opens] at level
  exact closingFound level

theorem neverLost {program : Program} {cursor : Nat} {loop : Loop} {outer : List Loop}
    {store : Store} {report : Report} {cause : Cause}
    (sound : Sound program (.walk cursor (loop :: outer) store report)) :
    loop.target.value store ≠ .error cause := by
  obtain ⟨reach, opened⟩ := sound.defined loop List.mem_cons_self
  dsimp only [State.store] at opened
  rw [headerRead opened]
  intro h
  contradiction

end Machine

namespace Program
open Machine

theorem arrivesSound {program : Program} {store : Store} {past : List Event} {state : State}
    (arrives : Arrives program store past state) : Sound program state := by
  induction arrives with
  | start => exact soundStart program store
  | next before stepped ih => exact soundMoves ih (movesStep stepped)

theorem tracesKeep {program : Program} (kept : List Event → State → Prop)
    (reached : List Event → Outcome → Prop)
    (moves : ∀ {past state events next}, Sound program state → kept past state →
      Moves program state events next → kept (past ++ events) next)
    (halts : ∀ {past state events outcome}, Sound program state → kept past state →
      Halts program state events outcome → reached (past ++ events) outcome)
    {store events outcome} (traced : program.Traces store events outcome)
    (first : kept [] (start store)) : reached events outcome := by
  obtain ⟨limit, traced⟩ := traced
  let both := fun past state => Sound program state ∧ kept past state
  have now : both ([] : List Event).reverse (start store) := ⟨soundStart program store, first⟩
  refine recordKeeps ?_ ?_ now traced
  · intro past state events next ⟨sound, now⟩ move
    exact ⟨soundMoves sound move, moves sound now move⟩
  · intro past state events outcome ⟨sound, now⟩ halt
    exact halts sound now halt

end Program
end CounterLang
