import Mathlib.Data.List.Forall2
import CounterLang.Proofs.Replay
import CounterLang.Proofs.Updates

/-! Two runs in step. What has to be said of two statements that stand at one position
and of two stores is a likeness; when single statements keep it, whole runs do. The
programs need the same brackets everywhere, but statements that are alike only where
the first run comes. -/
namespace CounterLang
open Nesting

def Statement.brackets (statement : Statement) : Bool × Bool := (statement.opens, statement.closes)

def SameBrackets (first second : Program) : Prop :=
  first.toList.map Statement.brackets = second.toList.map Statement.brackets

instance (first second : Program) : Decidable (SameBrackets first second) :=
  inferInstanceAs (Decidable (_ = _))

def positions (events : List Event) : List Nat := (dispatches events).map Prod.fst

namespace Nesting

theorem closingBrackets {left right : List Statement}
    (same : left.map Statement.brackets = right.map Statement.brackets) (depth offset : Nat) :
    closingFrom depth offset left = closingFrom depth offset right := by
  induction left generalizing right depth offset with
  | nil =>
    cases right with
    | nil => rfl
    | cons other rest => contradiction
  | cons statement left ih =>
    cases right with
    | nil => contradiction
    | cons other right =>
      obtain ⟨head, tail⟩ := List.cons.inj same
      obtain ⟨opens, closes⟩ := Prod.mk.inj head
      simp only [closingFrom, opens, closes]
      split
      · exact ih tail _ _
      · split
        · cases depth with
          | zero => rfl
          | succ depth => exact ih tail _ _
        · exact ih tail _ _

theorem betweenBrackets {first second : Program} (same : SameBrackets first second)
    (start stop : Nat) : (between first start stop).map Statement.brackets =
      (between second start stop).map Statement.brackets := by
  rw [betweenSpan, betweenSpan, List.map_take, List.map_drop, same, List.map_take, List.map_drop]

theorem sizeBrackets {first second : Program} (same : SameBrackets first second) :
    first.size = second.size := by
  simpa using congrArg List.length same

end Nesting

structure Likeness where
  statements : Statement → Statement → Prop
  stores : Store → Store → Prop
  causes : Cause → Cause → Prop

namespace Likeness

/- Single statements keep the likeness: what one does the other does, and what stops one
stops the other. -/
structure Kept (like : Likeness) : Prop where
  acts : ∀ {left right first second action name next}, like.statements left right →
    like.stores first second → left.instruction = .act action name →
    left.act action name first = .ok next → ∃ other later,
      right.instruction = .act action other ∧ right.act action other second = .ok later ∧
        like.stores next later
  loops : ∀ {left right control target}, like.statements left right →
    left.instruction = .loop control target → ∃ other goal,
      right.instruction = .loop other goal ∧ ∀ {first second}, like.stores first second →
        first.get? control = second.get? other ∧
          ∀ reach, target.value first = .ok reach → goal.value second = .ok reach
  raises : ∀ {left right first second closed cause}, like.statements left right →
    like.stores first second → left.raises closed first = some cause →
    ∃ reason, right.raises closed second = some reason ∧ like.causes cause reason

structure Loops (like : Likeness) (left right : Loop) : Prop where
  head : left.head = right.head
  close : left.close = right.close
  reach : left.reach = right.reach
  passes : left.passCount = right.passCount
  alike : like.statements left.statement right.statement
  form : left.statement.instruction = .loop left.control left.target
  shape : right.statement.instruction = .loop right.control right.target

inductive Events (like : Likeness) : Event → Event → Prop where
  | dispatch {index left right} (alike : like.statements left right) :
      Events like (.dispatch index left) (.dispatch index right)
  | enter {left right} (loops : like.Loops left right) : Events like (.enter left) (.enter right)
  | leave {left right} (loops : like.Loops left right) : Events like (.leave left) (.leave right)

inductive States (like : Likeness) : State → State → Prop where
  | walk {cursor loops others first second report} (frames : List.Forall₂ like.Loops loops others)
      (stores : like.stores first second) :
      States like (.walk cursor loops first report) (.walk cursor others second report)
  | check {loop other loops others first second report} (inner : like.Loops loop other)
      (frames : List.Forall₂ like.Loops loops others) (stores : like.stores first second) :
      States like (.check loop loops first report) (.check other others second report)

inductive Outcomes (like : Likeness) (first second : Program) (events : List Event) :
    Outcome → Outcome → Prop where
  | done {last other report} (stores : like.stores last other) :
      Outcomes like first second events ⟨last, .done report⟩ ⟨other, .done report⟩
  | failed {index : Nat} {left right cause reason last other}
      (place : (positions events).getLast? = some index) (here : first[index]? = some left)
      (there : second[index]? = some right) (alike : like.statements left right)
      (causes : like.causes cause reason) (stores : like.stores last other) :
      Outcomes like first second events ⟨last, .failed (left.fault cause)⟩
        ⟨other, .failed (right.fault reason)⟩

structure Programs (like : Likeness) (reached : Nat → Prop) (first second : Program) : Prop where
  brackets : SameBrackets first second
  alike : ∀ {index : Nat} {left}, reached index → first[index]? = some left →
    ∃ right, second[index]? = some right ∧ like.statements left right

variable {like : Likeness} {reached : Nat → Prop} {first second : Program}

theorem loopsRead (kept : like.Kept) {left right : Loop} (loops : like.Loops left right)
    {store other : Store} (stores : like.stores store other) :
    store.get? left.control = other.get? right.control ∧
      ∀ reach, left.target.value store = .ok reach → right.target.value other = .ok reach := by
  obtain ⟨control, goal, form, reads⟩ := kept.loops loops.alike loops.form
  rw [loops.shape] at form
  cases form
  exact reads stores

theorem loopsAgain {left right : Loop} (loops : like.Loops left right) (reach : UInt64) :
    like.Loops (left.again reach) (right.again reach) where
  head := loops.head
  close := loops.close
  reach := rfl
  passes := congrArg (· + 1) loops.passes
  alike := loops.alike
  form := loops.form
  shape := loops.shape

theorem blockEndSame (programs : like.Programs reached first second) {loops others : List Loop}
    (frames : List.Forall₂ like.Loops loops others) :
    Machine.blockEnd first loops = Machine.blockEnd second others := by
  cases frames with
  | nil => exact sizeBrackets programs.brackets
  | cons inner outer => exact inner.close

theorem bodyLengthSame (programs : like.Programs reached first second) {loops others : List Loop}
    (frames : List.Forall₂ like.Loops loops others) (head : Nat) :
    Machine.bodyLength? first loops head = Machine.bodyLength? second others head := by
  rw [Machine.bodyLength?, Machine.bodyLength?, blockEndSame programs frames]
  exact closingBrackets (betweenBrackets programs.brackets _ _) 0 0

theorem currentSame (programs : like.Programs reached first second) {loops others : List Loop}
    (frames : List.Forall₂ like.Loops loops others) {cursor : Nat} {left : Statement}
    (here : reached cursor) (found : Machine.current? first loops cursor = some left) :
    ∃ right, Machine.current? second others cursor = some right ∧ like.statements left right := by
  obtain ⟨inside, stands⟩ := Machine.currentSome.mp found
  obtain ⟨right, there, alike⟩ := programs.alike here stands
  rw [blockEndSame programs frames] at inside
  exact ⟨right, Machine.currentSome.mpr ⟨inside, there⟩, alike⟩

theorem endedSame (programs : like.Programs reached first second) {loops others : List Loop}
    (frames : List.Forall₂ like.Loops loops others) {cursor : Nat}
    (ended : Machine.current? first loops cursor = none) :
    Machine.current? second others cursor = none := by
  unfold Machine.current? at ended ⊢
  rw [← blockEndSame programs frames]
  split
  · rename_i inside
    rw [if_pos inside, Array.getElem?_eq_none_iff, sizeBrackets programs.brackets] at ended
    exact Array.getElem?_eq_none_iff.mpr ended
  · rfl

theorem movesAlike (kept : like.Kept) (programs : like.Programs reached first second)
    {state other next : State} {events : List Event} (states : like.States state other)
    (seen : ∀ entry ∈ dispatches events, reached entry.1)
    (moves : Machine.Moves first state events next) : ∃ more later,
      Machine.Moves second other more later ∧ List.Forall₂ like.Events events more ∧
        like.States next later := by
  cases moves with
  | @act cursor loops store report statement action name next found form done =>
    cases states with
    | walk frames stores =>
      have here := seen (cursor, statement) List.mem_cons_self
      obtain ⟨right, there, alike⟩ := currentSame programs frames here found
      obtain ⟨goal, later, shape, acted, after⟩ := kept.acts alike stores form done
      exact ⟨_, _, .act there shape acted, .cons (.dispatch alike) .nil, .walk frames after⟩
  | @enter cursor loops store report statement control target reach length found form opened
      closed =>
    cases states with
    | walk frames stores =>
      have here := seen (cursor, statement) List.mem_cons_self
      obtain ⟨right, there, alike⟩ := currentSame programs frames here found
      obtain ⟨goal, aim, shape, reads⟩ := kept.loops alike form
      obtain ⟨same, read⟩ := reads stores
      rw [headerForms] at opened
      split at opened <;> try contradiction
      rename_i value defined
      have header : _ = Except.ok reach := (headerForms _ goal aim).trans (by
        rw [← same, defined]
        exact read reach opened)
      rw [bodyLengthSame programs frames] at closed
      have loop : like.Loops ⟨cursor, statement, cursor + 1 + length, control, target, reach, 0⟩
          ⟨cursor, right, cursor + 1 + length, goal, aim, reach, 0⟩ :=
        ⟨rfl, rfl, rfl, rfl, alike, form, shape⟩
      exact ⟨_, _, .enter there shape header closed,
        .cons (.dispatch alike) (.cons (.enter loop) .nil), .check loop frames stores⟩
  | again ended read =>
    cases states with
    | walk frames stores =>
      cases frames with
      | cons inner outer =>
        have aimed := (loopsRead kept inner stores).2 _ read
        have ended := endedSame programs (.cons inner outer) ended
        exact ⟨_, _, .again ended aimed, .nil, .check (loopsAgain inner _) outer stores⟩
  | leave equal =>
    cases states with
    | check inner outer stores =>
      rw [(loopsRead kept inner stores).1, inner.reach] at equal
      refine ⟨_, _, .leave equal, .cons (.leave inner) .nil, ?_⟩
      rw [inner.close, Report.left, inner.passes]
      exact .walk outer stores
  | pass differs =>
    cases states with
    | check inner outer stores =>
      rw [(loopsRead kept inner stores).1, inner.reach] at differs
      refine ⟨_, _, .pass differs, .nil, ?_⟩
      rw [inner.head]
      exact .walk (.cons inner outer) stores

theorem haltsAlike (kept : like.Kept) (programs : like.Programs reached first second)
    {state other : State} {past events : List Event} {outcome : Outcome}
    (sound : Machine.Sound first state) (states : like.States state other)
    (seen : ∀ entry ∈ dispatches events, reached entry.1)
    (halts : Machine.Halts first state events outcome) : ∃ more last,
      Machine.Halts second other more last ∧ List.Forall₂ like.Events events more ∧
        like.Outcomes first second (past ++ events) outcome last := by
  cases halts with
  | finish ended =>
    cases states with
    | walk frames stores =>
      have finished := endedSame programs frames ended
      cases frames
      exact ⟨_, _, .finish finished, .nil, .done stores⟩
  | @refuse cursor loops store report statement cause found refused =>
    cases states with
    | walk frames stores =>
      have here := seen (cursor, statement) List.mem_cons_self
      obtain ⟨right, there, alike⟩ := currentSame programs frames here found
      obtain ⟨reason, raised, causes⟩ := kept.raises alike stores refused
      rw [bodyLengthSame programs frames] at raised
      have place : (positions (past ++ [.dispatch cursor statement])).getLast? = some cursor := by
        simp [positions, dispatches, Event.dispatched?]
      exact ⟨_, _, .refuse there raised, .cons (.dispatch alike) .nil,
        .failed place (Machine.currentSome.mp found).2 (Machine.currentSome.mp there).2 alike
          causes stores⟩
  | lost ended unread => exact absurd unread (Machine.neverLost sound)

theorem tracesAlike (kept : like.Kept) (programs : like.Programs reached first second)
    {store other : Store} (stores : like.stores store other) {events : List Event}
    {outcome : Outcome} (traced : first.Traces store events outcome)
    (seen : ∀ entry ∈ dispatches events, reached entry.1) : ∃ told last,
      second.Traces other told last ∧ List.Forall₂ like.Events events told ∧
        like.Outcomes first second events outcome last := by
  -- Along the way the second run stands in a like state, with like events behind it.
  refine Program.tracesKeep
    (fun past state => (∀ entry ∈ dispatches past, reached entry.1) → ∃ told later,
      second.Arrives other told later ∧ List.Forall₂ like.Events past told ∧
        like.States state later)
    (fun events outcome => (∀ entry ∈ dispatches events, reached entry.1) → ∃ told last,
      second.Traces other told last ∧ List.Forall₂ like.Events events told ∧
        like.Outcomes first second events outcome last) ?_ ?_ traced ?_ seen
  · intro past state events next _ before moves seen
    simp only [dispatchesAppend, List.forall_mem_append] at seen
    obtain ⟨told, later, arrives, log, states⟩ := before seen.1
    obtain ⟨more, last, step, same, states⟩ := movesAlike kept programs states seen.2 moves
    exact ⟨told ++ more, last, .next arrives (Machine.stepMoves step), List.rel_append log same,
      states⟩
  · intro past state events outcome sound before halts seen
    simp only [dispatchesAppend, List.forall_mem_append] at seen
    obtain ⟨told, later, arrives, log, states⟩ := before seen.1
    obtain ⟨more, last, step, same, outcomes⟩ :=
      haltsAlike kept programs sound states seen.2 halts
    exact ⟨told ++ more, last, Program.arrivesTraces arrives (Machine.stepHalts step),
      List.rel_append log same, outcomes⟩
  · intro _
    exact ⟨[], _, .start, .nil, .walk .nil stores⟩

theorem endsBack (kept : like.Kept) (programs : like.Programs (fun _ => True) first second)
    {state other : State} (states : like.States state other) {last : Outcome}
    (ends : Machine.Ends second other last) : ∃ outcome, Machine.Ends first state outcome := by
  obtain ⟨limit, run⟩ := ends
  induction limit generalizing state other with
  | zero => contradiction
  | succ limit ih =>
    rcases Machine.movesOrHalts first state with ⟨_, next, moves⟩ | ⟨_, outcome, halts⟩
    · obtain ⟨more, later, step, _, after⟩ :=
        movesAlike kept programs states (fun _ _ => trivial) moves
      rw [Machine.run, Machine.stepMoves step] at run
      obtain ⟨outcome, ends⟩ := ih after run
      exact ⟨outcome, (Machine.endsMoves moves outcome).mpr ends⟩
    · exact ⟨outcome, (Machine.endsHalts halts outcome).mpr rfl⟩

theorem finishesBack (kept : like.Kept) (programs : like.Programs (fun _ => True) first second)
    {store other : Store} (stores : like.stores store other) {last : Outcome}
    (finishes : second.Finishes other last) : ∃ outcome, first.Finishes store outcome :=
  endsBack kept programs (.walk .nil stores) finishes

def Together (like : Likeness) (first second : Program) (store other : Store) : Prop :=
  ((∀ outcome, ¬ first.Finishes store outcome) ∧ ∀ outcome, ¬ second.Finishes other outcome) ∨
  ∃ events told left right, first.Traces store events left ∧ second.Traces other told right ∧
    List.Forall₂ like.Events events told ∧ like.Outcomes first second events left right

theorem runTogether (kept : like.Kept) (programs : like.Programs (fun _ => True) first second)
    (back : like.Programs (fun _ => True) second first) {store other : Store}
    (stores : like.stores store other) (reverse : like.stores other store) :
    like.Together first second store other := by
  by_cases ends : ∃ events left, first.Traces store events left
  · obtain ⟨events, left, traced⟩ := ends
    obtain ⟨told, right, other, log, outcomes⟩ :=
      tracesAlike kept programs stores traced fun _ _ => trivial
    exact .inr ⟨events, told, left, right, traced, other, log, outcomes⟩
  · refine .inl ⟨fun left finishes => ?_, fun right finishes => ?_⟩
    · obtain ⟨events, traced⟩ := Program.finishesTraces.mp finishes
      exact ends ⟨events, left, traced⟩
    · obtain ⟨told, traced⟩ := Program.finishesTraces.mp finishes
      obtain ⟨events, left, other, _⟩ :=
        tracesAlike kept back reverse traced fun _ _ => trivial
      exact ends ⟨events, left, other⟩

theorem keptReading (known : String → Prop)
    (said : ∀ {left right}, like.statements left right → left.text = right.text ∧
      left.instruction = right.instruction ∧ ∀ name ∈ left.instruction.mentions, known name)
    (agree : ∀ {first second name}, like.stores first second → known name →
      first.get? name = second.get? name)
    (put : ∀ {first second name} value, like.stores first second → known name →
      like.stores (first.put name value) (second.put name value))
    (same : ∀ cause, like.causes cause cause) : like.Kept where
  acts {left right first second action name next} alike stores form done := by
    obtain ⟨_, instruction, mentions⟩ := said alike
    rw [form] at instruction mentions
    have here := mentions name List.mem_cons_self
    refine ⟨name, ?_⟩
    rw [actForms, agree stores here] at done
    rw [actForms]
    split at done <;> cases done
    exact ⟨_, instruction.symm, rfl, put _ stores here⟩
  loops {left right control target} alike form := by
    obtain ⟨_, instruction, mentions⟩ := said alike
    rw [form] at instruction mentions
    refine ⟨control, target, instruction.symm, fun stores => ?_⟩
    have value := valueAlike fun name member =>
      agree stores (mentions name (List.mem_cons_of_mem _ member))
    exact ⟨agree stores (mentions control List.mem_cons_self), fun reach read => value ▸ read⟩
  raises {left right first second closed cause} alike stores raised := by
    obtain ⟨text, instruction, mentions⟩ := said alike
    rw [raisesAlike text instruction fun name member => agree stores (mentions name member)]
      at raised
    exact ⟨cause, raised, same cause⟩

def oneStore (statements : Statement → Statement → Prop) : Likeness := ⟨statements, Eq, Eq⟩

theorem keptOneStore {statements : Statement → Statement → Prop}
    (said : ∀ {left right}, statements left right →
      left.text = right.text ∧ left.instruction = right.instruction) :
    (oneStore statements).Kept := by
  refine keptReading (fun _ => True) ?_ ?_ ?_ ?_
  · exact fun alike => ⟨(said alike).1, (said alike).2, fun _ _ => trivial⟩
  · rintro first second name rfl _
    rfl
  · rintro first second name value rfl _
    rfl
  · exact fun _ => rfl

end Likeness
end CounterLang
