import CounterLang.Proofs.Blocks
import CounterLang.Proofs.Replay

/-! The two faults of brackets, against the shape of the program alone. A balanced
program never raises them and one that is not balanced never comes to its end.
At most one position can take the blame, and it stands outside every loop. -/
namespace CounterLang
open Nesting

def Cause.ofBrackets : Cause → Bool
  | .missingEnd | .redundantEnd => true
  | _ => false

theorem refusedOther (statement : Statement) (action : Action) (name : String)
    (refusal : Refusal) : (statement.refused action name refusal).ofBrackets = false := by
  cases refusal <;> cases action <;> rfl

theorem headerRefused {store : Store} {control : String} {target : Operand} {cause : Cause}
    (refused : store.header control target = .error cause) : cause.ofBrackets = false := by
  unfold Store.header at refused
  split at refused
  · cases target with
    | literal value => simp [Operand.value] at refused
    | named name =>
      simp only [Operand.value] at refused
      split at refused <;> cases refused
      rfl
  · cases refused
    rfl

theorem raisesBrackets {statement : Statement} {closed : Bool} {store : Store} {cause : Cause}
    (raised : statement.raises closed store = some cause) (brackets : cause.ofBrackets = true) :
    statement.closes = true ∨ (statement.opens = true ∧ closed = false) := by
  unfold Statement.raises at raised
  cases form : statement.instruction with
  | act action name =>
    simp only [form] at raised
    split at raised <;> cases raised
    rename_i refused
    obtain ⟨refusal, same⟩ := actRefused refused
    rw [same, refusedOther] at brackets
    contradiction
  | loop control target =>
    simp only [form] at raised
    split at raised
    · cases closed with
      | true => simp at raised
      | false => exact .inr ⟨Machine.loopOpens form, rfl⟩
    · rename_i refused
      cases raised
      rw [headerRefused refused] at brackets
      contradiction
  | close =>
    left
    simp [Statement.closes, Instruction.closes, Instruction.keyword?, form]
  | malformed keyword problem =>
    simp only [form, Option.some.injEq] at raised
    subst cause
    cases problem <;> contradiction
  | unknown word =>
    simp only [form, Option.some.injEq] at raised
    subst cause
    contradiction

/- Everything before the position is balanced and nothing can be taken into a block
there. -/
structure Stray (program : Program) (position : Nat) (statement : Statement) : Prop where
  found : program[position]? = some statement
  before : Balanced (program.toList.take position)
  stuck : Stuck (program.toList.drop position)

def Encloses (program : Program) (head position : Nat) : Prop :=
  ∃ statement length, program[head]? = some statement ∧ statement.opens = true ∧
    closing? (program.toList.drop (head + 1)) = some length ∧
    head < position ∧ position ≤ head + 1 + length

theorem dropFound {program : Program} {position : Nat} {statement : Statement}
    (found : program[position]? = some statement) :
    program.toList.drop position = statement :: program.toList.drop (position + 1) := by
  rw [← betweenLast, ← betweenLast]
  obtain ⟨bound, _⟩ := Array.getElem?_eq_some_iff.mp found
  exact betweenCons bound found

theorem straySize {program : Program} {position : Nat} {statement : Statement}
    (stray : Stray program position statement) :
    position = (Block.split program.toList).1.size := by
  obtain ⟨found, before, stuck⟩ := stray
  obtain ⟨bound, _⟩ := Array.getElem?_eq_some_iff.mp found
  obtain ⟨block, sound, flat⟩ := balancedBlock (balancedLevel.mp before)
  have splits : Splits program.toList block (program.toList.drop position) :=
    ⟨sound, by rw [flat, List.take_append_drop], stuck⟩
  rw [Block.splitOnly splits, Block.size, flat, List.length_take, program.length_toList]
  omega

theorem strayUnbalanced {program : Program} {position : Nat} {statement : Statement}
    (stray : Stray program position statement) : ¬ Balanced program.toList := by
  intro balanced
  obtain ⟨found, before, stuck⟩ := stray
  have level := balancedLevel.mp balanced
  rw [← List.take_append_drop position program.toList, levelAppend, balancedLevel.mp before,
    Option.bind_some, dropFound found] at level
  rw [dropFound found] at stuck
  rcases stuck with closes | ⟨opens, unmatched⟩
  · rw [levelStray closes] at level
    contradiction
  · rw [levelOpens opens] at level
    obtain ⟨length, closed⟩ := closingFound level
    rw [unmatchedClosing.mp unmatched] at closed
    contradiction

theorem strayOutside {program : Program} {position : Nat} {statement : Statement}
    (stray : Stray program position statement) (head : Nat) : ¬ Encloses program head position := by
  intro ⟨header, length, found, opens, closed, order, inside⟩
  rw [← betweenLast] at closed
  obtain ⟨_, body, _⟩ := Machine.bodyPlaced (Nat.le_refl (Machine.blockEnd program [])) closed
  have level := balancedLevel.mp stray.before
  rw [← betweenFirst] at level
  exact openInside found opens body (Nat.zero_le head) order inside level

namespace Machine

theorem bracketsStray {program cursor loops store report statement cause}
    (sound : Sound program (.walk cursor loops store report))
    (found : current? program loops cursor = some statement)
    (raised : statement.raises (bodyLength? program loops cursor).isSome store = some cause)
    (brackets : cause.ofBrackets = true) : Stray program cursor statement := by
  obtain ⟨inside, stands⟩ := currentSome.mp found
  have shape := raisesBrackets raised brackets
  cases loops with
  | cons loop outer =>
    rcases shape with closes | ⟨opens, never⟩
    · rw [noStray sound found] at closes
      contradiction
    · obtain ⟨length, closed⟩ := bodyInner sound found opens
      rw [closed] at never
      contradiction
  | nil =>
    have level := sound.place.2.2
    refine ⟨stands, balancedLevel.mpr ?_, ?_⟩
    · rw [← betweenFirst]
      exact level
    · rw [dropFound stands]
      rcases shape with closes | ⟨opens, never⟩
      · exact .inl closes
      · rw [bodyGlobal sound found opens, Option.isSome_eq_false_iff, Option.isNone_iff_eq_none]
          at never
        exact .inr ⟨opens, unmatchedClosing.mpr never⟩

end Machine

namespace Program
open Machine

structure Blames (program : Program) (position : Nat) (dispatched : List (Nat × Statement))
    (fault : Fault) : Prop where
  last : ∃ earlier statement, dispatched = earlier ++ [(position, statement)] ∧
    program[position]? = some statement ∧ fault = statement.fault fault.cause
  before : Balanced (program.toList.take position)
  outside : ∀ head, ¬ Encloses program head position

theorem failedStray {program : Program} {store : Store} {events : List Event} {outcome : Outcome}
    (traced : program.Traces store events outcome) {fault : Fault}
    (failed : outcome.ending = .failed fault) (brackets : fault.cause.ofBrackets = true) :
    ∃ earlier position statement, dispatches events = earlier ++ [(position, statement)] ∧
      fault = statement.fault fault.cause ∧ Stray program position statement := by
  refine tracesKeep (fun _ _ => True) (fun events outcome => outcome.ending = .failed fault →
    ∃ earlier position statement, dispatches events = earlier ++ [(position, statement)] ∧
      fault = statement.fault fault.cause ∧ Stray program position statement)
    (fun _ _ _ => trivial) ?_ traced trivial failed
  intro past state events outcome sound _ halts failed
  cases halts with
  | finish ended => cases failed
  | @refuse cursor loops store report statement cause found refused =>
    cases failed
    exact ⟨_, cursor, statement, dispatchesAppend _ _, rfl,
      bracketsStray sound found refused brackets⟩
  | lost ended unread => exact absurd unread (neverLost sound)

theorem doneBalanced {program : Program} {store : Store} {events : List Event} {outcome : Outcome}
    (traced : program.Traces store events outcome) {report : Report}
    (done : outcome.ending = .done report) : Balanced program.toList := by
  refine tracesKeep (fun _ _ => True) (fun _ outcome => outcome.ending = .done report →
    Balanced program.toList) (fun _ _ _ => trivial) ?_ traced trivial done
  intro past state events outcome sound _ halts done
  cases halts with
  | @finish cursor store report ended =>
    have whole := (currentNone sound.nested).mp ended
    obtain ⟨_, bound, level⟩ := sound.place
    have behind : cursor = program.size := Nat.le_antisymm bound whole
    subst behind
    rw [blockStart, betweenLast] at level
    exact balancedLevel.mpr level
  | refuse found refused => cases done
  | lost ended unread => cases done

theorem bracketsDecideFaults (program : Program) :
    (Balanced program.toList → ∀ store last fault,
      program.Finishes store ⟨last, .failed fault⟩ → fault.cause.ofBrackets = false) ∧
    (¬ Balanced program.toList → ∀ store last report,
      ¬ program.Finishes store ⟨last, .done report⟩) ∧
    ∃ position, ∀ store events last fault, program.Traces store events ⟨last, .failed fault⟩ →
      fault.cause.ofBrackets = true → Blames program position (dispatches events) fault := by
  refine ⟨?_, ?_, (Block.split program.toList).1.size, ?_⟩
  · intro balanced store last fault finishes
    obtain ⟨events, traced⟩ := finishesTraces.mp finishes
    apply Bool.eq_false_iff.mpr
    intro brackets
    obtain ⟨_, _, _, _, _, stray⟩ := failedStray traced rfl brackets
    exact strayUnbalanced stray balanced
  · intro unbalanced store last report finishes
    obtain ⟨events, traced⟩ := finishesTraces.mp finishes
    exact unbalanced (doneBalanced traced rfl)
  · intro store events last fault traced brackets
    obtain ⟨earlier, position, statement, same, blamed, stray⟩ := failedStray traced rfl brackets
    rw [← straySize stray]
    exact ⟨⟨earlier, statement, same, stray.found, blamed⟩, stray.before, strayOutside stray⟩

def halfClosed : Program :=
  #[⟨"clear x", "clear x;", 1, .act .clear "x"⟩,
    ⟨"while x not 1 do", "while x not 1 do;", 2, .loop "x" (.literal 1)⟩,
    ⟨"while x not 1 do", "while x not 1 do;", 3, .loop "x" (.literal 1)⟩,
    ⟨"incr x", "incr x;", 4, .act .incr "x"⟩,
    ⟨"end", "end;", 5, .close⟩]

theorem halfClosedBlamed : ∃ position events,
    halfClosed.Traces .empty events
      ⟨.single "x" 0, .failed ⟨2, "while x not 1 do;", .missingEnd⟩⟩ ∧
    Blames halfClosed position (dispatches events) ⟨2, "while x not 1 do;", .missingEnd⟩ := by
  have finishes : halfClosed.Finishes .empty
      ⟨.single "x" 0, .failed ⟨2, "while x not 1 do;", .missingEnd⟩⟩ := ⟨2, by decide⟩
  obtain ⟨events, traced⟩ := finishesTraces.mp finishes
  obtain ⟨_, _, position, blames⟩ := bracketsDecideFaults halfClosed
  exact ⟨position, events, traced, blames _ _ _ _ traced rfl⟩

end Program
end CounterLang
