import Mathlib.Algebra.BigOperators.Group.Finset.Piecewise
import Mathlib.Algebra.BigOperators.Option
import Mathlib.Algebra.GroupWithZero.Nat
import CounterLang.Proofs.BracketFaults
import CounterLang.Proofs.LexicalNesting

/-! What the report of a run counts. A statement is dispatched once for each pass through the body
that it stands in, and once if it stands in none; the end of a loop is never dispatched. The
counts of the report are sums of these, over the brackets alone, as far as a word holds them. -/
namespace CounterLang
open Nesting

def Event.left? : Event → Option Loop
  | .leave loop => some loop
  | .dispatch _ _ => none
  | .enter _ => none

def leaves (events : List Event) : List Loop := events.filterMap Event.left?

def dispatchCount (index : Nat) (events : List Event) : Nat :=
  ((dispatches events).filter fun entry => entry.1 = index).length

def leftPasses (head : Nat) (events : List Event) : Nat :=
  (((leaves events).filter fun loop => loop.head = head).map Loop.passes).sum

def passCount (head : Nat) (history : List Mark) : Nat := history.count (.pass head)

def closesAt (program : Program) (index : Nat) : Bool := (program[index]?).any Statement.closes

def plain (program : Program) : Finset Nat :=
  (Finset.range program.size).filter fun index => closesAt program index = false

/- What stands in the body of a loop and in no loop within it, or in no loop at all. -/
def direct (program : Program) (owner : Option Nat) : Finset Nat :=
  (plain program).filter fun index => owner? program index = owner

structure Accounted (program : Program) (history : List Mark) (report : Report) : Prop where
  outside : ∀ index ∈ direct program none, dispatchCount index (logOf history) = 1
  inside : ∀ head, ∀ index ∈ direct program (some head),
    dispatchCount index (logOf history) = passCount head history
  ends : ∀ index, closesAt program index = true ↔ ∃ head, Matched program head index
  never : ∀ head close, Matched program head close → dispatchCount close (logOf history) = 0
  activations : ∀ head, passCount head history < UInt64.size →
    passCount head history = leftPasses head (logOf history)
  iterations : Tells report.iterations (∑ head ∈ heads program, passCount head history)
  passes : Tells report.iterations ((leaves (logOf history)).map Loop.passes).sum
  statements : Tells report.statements ((direct program none).card +
    ∑ head ∈ heads program, passCount head history * (direct program (some head)).card)

theorem dispatchCountAppend (index : Nat) (front back : List Event) :
    dispatchCount index (front ++ back) = dispatchCount index front + dispatchCount index back := by
  simp only [dispatchCount, dispatchesAppend, List.filter_append, List.length_append]

theorem dispatchCountCons (index cursor : Nat) (statement : Statement) (more : List Event) :
    dispatchCount index (.dispatch cursor statement :: more) =
      (if cursor = index then 1 else 0) + dispatchCount index more := by
  have split : dispatches (.dispatch cursor statement :: more) =
      (cursor, statement) :: dispatches more := rfl
  rw [dispatchCount, split, List.filter_cons]
  by_cases same : cursor = index
  · simp [same, dispatchCount, Nat.add_comm]
  · simp [same, dispatchCount]

theorem passCountLogged (head : Nat) (events : List Event) :
    passCount head (events.map .logged) = 0 := by
  simp [passCount, List.count_eq_zero]

theorem passCountOne (head other : Nat) :
    passCount head [.pass other] = if other = head then 1 else 0 := by
  by_cases same : other = head
  · simp [passCount, same]
  · have absent : Mark.pass head ∉ [Mark.pass other] := by simpa [eq_comm] using same
    rw [passCount, List.count_eq_zero.mpr absent, if_neg same]

theorem passCountAppend (head : Nat) (front back : List Mark) :
    passCount head (front ++ back) = passCount head front + passCount head back :=
  List.count_append

theorem sumByKey {item : Type} (keys : Finset Nat) (key weight : item → Nat) {items : List item}
    (inside : ∀ one ∈ items, key one ∈ keys) :
    ∑ place ∈ keys, ((items.filter fun one => key one = place).map weight).sum =
      (items.map weight).sum := by
  induction items with
  | nil => simp
  | cons first rest ih =>
    have later := ih fun one member => inside one (List.mem_cons_of_mem _ member)
    have split (place : Nat) :
        (((first :: rest).filter fun one => key one = place).map weight).sum =
        (if key first = place then weight first else 0) +
          ((rest.filter fun one => key one = place).map weight).sum := by
      rw [List.filter_cons]
      by_cases same : key first = place <;> simp [same]
    simp only [split, Finset.sum_add_distrib, later, List.map_cons, List.sum_cons,
      Finset.sum_ite_eq, inside first List.mem_cons_self, if_true]

def rounds (owner : Option Nat) (history : List Mark) : Nat :=
  match owner with
  | none => 1
  | some head => passCount head history

theorem roundsLogged (owner : Option Nat) (past : List Mark) (events : List Event) :
    rounds owner (past ++ events.map .logged) = rounds owner past := by
  cases owner with
  | none => rfl
  | some head => simp only [rounds, passCountAppend, passCountLogged, Nat.add_zero]

theorem roundsPass (owner : Option Nat) (past : List Mark) (head : Nat) :
    rounds owner (past ++ [.pass head]) =
      rounds owner past + if owner = some head then 1 else 0 := by
  cases owner with
  | none => simp [rounds]
  | some other => simp only [rounds, passCountAppend, passCountOne, Option.some.injEq, eq_comm]

/- Whether a position is still to come in the body now gone through that owns it. The walk
is at the cursor in the innermost open loop, and behind the next header further out. -/
def due (program : Program) (index : Nat) : Nat → List Loop → Nat
  | cursor, [] => if owner? program index = none ∧ cursor ≤ index then 1 else 0
  | cursor, loop :: outer =>
    (if owner? program index = some loop.head ∧ cursor ≤ index then 1 else 0) +
      due program index (loop.head + 1) outer

def State.due (program : Program) (index : Nat) : State → Nat
  | .walk cursor loops _ _ => CounterLang.due program index cursor loops
  | .check loop outer _ _ => CounterLang.due program index (loop.head + 1) outer

def dueOuter (program : Program) (index : Nat) : List Loop → Nat
  | [] => 0
  | loop :: outer => due program index (loop.head + 1) outer

theorem dueHere (program : Program) (index cursor : Nat) (loops : List Loop) :
    due program index cursor loops =
      (if owner? program index = loops.head?.map Loop.head ∧ cursor ≤ index then 1 else 0) +
        dueOuter program index loops := by
  cases loops <;> rfl

def begun (head : Nat) (activations : List Activation) : Nat :=
  ((activations.filter fun inner => inner.head = head).map Activation.passes).sum

def State.report : State → Report
  | .walk _ _ _ report => report
  | .check _ _ _ report => report

theorem leavesAppend (front back : List Event) :
    leaves (front ++ back) = leaves front ++ leaves back :=
  List.filterMap_append

theorem begunCons (head : Nat) (inner : Activation) (outer : List Activation) :
    begun head (inner :: outer) =
      (if inner.head = head then inner.passes else 0) + begun head outer := by
  rw [begun, List.filter_cons]
  by_cases same : inner.head = head <;> simp [same, begun]

theorem begunAppend (head : Nat) (front back : List Activation) :
    begun head (front ++ back) = begun head front + begun head back := by
  simp only [begun, List.filter_append, List.map_append, List.sum_append]

structure Told (loop : Loop) (ended : Activation) : Prop where
  head : loop.head = ended.head
  passes : loop.passCount = .ofNat ended.passes

theorem toldHeads {loops : List Loop} {ended : List Activation}
    (told : List.Forall₂ Told loops ended) :
    ended.map Activation.head = loops.map Loop.head := by
  induction told with
  | nil => rfl
  | cons first rest ih => rw [List.map_cons, List.map_cons, ih, first.head]

theorem toldWrapped {loops : List Loop} {ended : List Activation}
    (told : List.Forall₂ Told loops ended) :
    (ended.map Activation.passes).sum % UInt64.size =
      (loops.map Loop.passes).sum % UInt64.size := by
  induction told with
  | nil => rfl
  | cons first rest ih =>
    rw [List.map_cons, List.map_cons, List.sum_cons, List.sum_cons, Nat.add_mod, ih,
      ← (passesTold first.passes).wrapped, Nat.add_mod_mod]

theorem toldExact {loops : List Loop} {ended : List Activation}
    (told : List.Forall₂ Told loops ended) (head : Nat) (fits : begun head ended < UInt64.size) :
    begun head ended =
      ((loops.filter fun loop => loop.head = head).map Loop.passes).sum := by
  induction told with
  | nil => rfl
  | @cons loop inner loops ended first rest ih =>
    rw [begunCons] at fits ⊢
    rw [List.filter_cons, ih (by omega), first.head]
    by_cases same : inner.head = head
    · rw [if_pos same] at fits
      simp [same, (passesTold first.passes).exact (by omega)]
    · simp [same]

namespace Machine

theorem ownerOpen {program cursor loops store report statement}
    (sound : Sound program (.walk cursor loops store report))
    (found : current? program loops cursor = some statement) :
    owner? program cursor = loops.head?.map Loop.head := by
  rw [owner?, openEnclose sound found, List.getLast?_reverse, List.head?_map]

theorem dueStep {program : Program} {cursor : Nat} {loops : List Loop}
    (owned : owner? program cursor = loops.head?.map Loop.head) (index : Nat) :
    due program index cursor loops =
      (if cursor = index then 1 else 0) + due program index (cursor + 1) loops := by
  rw [dueHere, dueHere _ _ (cursor + 1)]
  by_cases same : cursor = index
  · subst index
    simp [owned]
  · have order : cursor ≤ index ↔ cursor + 1 ≤ index := by omega
    simp only [same, order, if_false, Nat.zero_add]

theorem dueDispatch {program cursor loops store report statement}
    (sound : Sound program (.walk cursor loops store report))
    (found : current? program loops cursor = some statement) (index : Nat) :
    dispatchCount index [.dispatch cursor statement] + due program index (cursor + 1) loops =
      due program index cursor loops := by
  rw [dueStep (ownerOpen sound found), dispatchCountCons]
  rfl

theorem duePast {program : Program} {loop : Loop} {outer : List Loop} {cursor : Nat}
    (placed : Placed program outer loop) (past : loop.close ≤ cursor) (index : Nat) :
    due program index cursor (loop :: outer) = due program index (loop.head + 1) outer := by
  have nothing : ¬ (owner? program index = some loop.head ∧ cursor ≤ index) := by
    intro ⟨owned, order⟩
    obtain ⟨_, close, matched, inside⟩ := ownerContains owned
    have same := matchedOnce matched (placedMatched placed)
    omega
  rw [due, if_neg nothing, Nat.zero_add]

theorem ownerBehind {program : Program} {loop : Loop} {outer : List Loop} {index : Nat}
    (placed : Placed program outer loop) (plain : closesAt program index = false)
    (owned : owner? program index = outer.head?.map Loop.head) :
    loop.head + 1 ≤ index ↔ loop.close + 1 ≤ index := by
  have order := placed.order
  refine ⟨fun after => ?_, fun after => by omega⟩
  apply Nat.lt_of_not_le
  intro early
  rcases Nat.lt_or_eq_of_le early with inside | same
  · obtain ⟨inner, other, further⟩ :=
      ownerInnermost ⟨after, loop.close, placedMatched placed, inside⟩
    rw [owned] at other
    cases outer with
    | nil => cases other
    | cons next rest =>
      have start := placed.start
      cases other
      dsimp only [blockStart] at start
      omega
  · obtain ⟨close, found, closes⟩ := placed.closes
    rw [same, closesAt, found, Option.any_some, closes] at plain
    contradiction

theorem dueLeave {program : Program} {loop : Loop} {outer : List Loop} {index : Nat}
    (placed : Placed program outer loop) (plain : closesAt program index = false) :
    due program index (loop.head + 1) outer = due program index (loop.close + 1) outer := by
  have behind := ownerBehind placed plain
  rw [dueHere, dueHere _ _ (loop.close + 1), if_congr (and_congr_right behind) rfl rfl]

/- Dispatched already or still to come makes up the rounds begun. -/
theorem dueMoves {program state events next past index} (sound : Sound program state)
    (plain : closesAt program index = false) (moves : Moves program state events next)
    (now : dispatchCount index (logOf past) + state.due program index =
      rounds (owner? program index) past) :
    dispatchCount index (logOf (past ++ marks state events next)) + next.due program index =
      rounds (owner? program index) (past ++ marks state events next) := by
  rw [logAppend, logMarks, dispatchCountAppend]
  cases moves with
  | @act cursor loops store report statement action name next found form done =>
    rw [marksWalk, roundsLogged, ← now, Nat.add_assoc]
    exact congrArg _ (dueDispatch sound found index)
  | @enter cursor loops store report statement control target reach length found form opened
      closed =>
    rw [marksWalk, roundsLogged, ← now, Nat.add_assoc]
    exact congrArg _ (dueDispatch sound found index)
  | @again cursor loop outer store report reach ended read =>
    rw [marksWalk, roundsLogged, ← now]
    have past := (currentNone sound.nested).mp ended
    exact congrArg _ (duePast sound.nested.1 past index).symm
  | @leave loop outer store report equal =>
    rw [marksLeave, roundsLogged, ← now]
    exact congrArg _ (dueLeave sound.nested.1 plain).symm
  | @pass loop outer store report differs =>
    rw [marksPass, roundsPass, ← now]
    have inside : (owner? program index = some loop.head ∧ loop.head + 1 ≤ index) ↔
        owner? program index = some loop.head :=
      and_iff_left_of_imp fun owned => (ownerContains owned).1
    dsimp only [State.due, due]
    rw [if_congr inside rfl rfl]
    change _ + 0 + _ = _
    omega

theorem movesDispatch {program state events next} (moves : Moves program state events next) :
    ∀ entry ∈ dispatches events, program[entry.1]? = some entry.2 ∧ entry.2.closes = false := by
  cases moves with
  | @act cursor loops store report statement action name next found form done =>
    intro entry member
    rw [List.mem_singleton.mp member]
    exact ⟨(currentSome.mp found).2, (actSimple form).2⟩
  | @enter cursor loops store report statement control target reach length found form opened
      closed =>
    intro entry member
    rw [List.mem_singleton.mp member]
    exact ⟨(currentSome.mp found).2, Instruction.closesNotOpens (loopOpens form)⟩
  | again ended read => intro entry member; contradiction
  | leave equal => intro entry member; contradiction
  | pass differs => intro entry member; contradiction

theorem movesLeft {program state events next} (sound : Sound program state)
    (moves : Moves program state events next) :
    ∀ loop ∈ leaves events, loop.head ∈ heads program := by
  cases moves with
  | act found form done => intro loop member; contradiction
  | enter found form opened closed => intro loop member; contradiction
  | again ended read => intro loop member; contradiction
  | leave equal =>
    intro loop member
    rw [List.mem_singleton.mp member]
    exact headsMem.mpr ⟨_, placedMatched sound.nested.1⟩
  | pass differs => intro loop member; contradiction

structure Kept (past : List Mark) (state : State) (active ended : List Activation) : Prop where
  mirrored : state.Mirrored active
  told : List.Forall₂ Told (leaves (logOf past)) ended
  report : state.report =
    .ofCounts (dispatches (logOf past)).length (ended.map Activation.passes).sum
  passes : ∀ head, passCount head past = begun head ended + begun head active

theorem keptStep {past state events next active ended later more}
    (kept : Kept past state active ended) (mirrored : next.Mirrored later)
    (told : List.Forall₂ Told (leaves events) more)
    (report : next.report =
      state.report + .ofCounts (dispatches events).length (more.map Activation.passes).sum)
    (passes : ∀ head, passCount head (marks state events next) + begun head active =
      begun head more + begun head later) :
    Kept (past ++ marks state events next) next later (ended ++ more) where
  mirrored := mirrored
  told := by
    rw [logAppend, logMarks, leavesAppend]
    exact List.rel_append kept.told told
  report := by
    rw [report, kept.report, countsSum, logAppend, logMarks, dispatchesAppend,
      List.length_append, List.map_append, List.sum_append]
  passes head := by
    have now := passes head
    have before := kept.passes head
    rw [passCountAppend, begunAppend]
    omega

theorem keptMoves {program state events next past active ended}
    (kept : Kept past state active ended) (moves : Moves program state events next) :
    ∃ later more, Kept (past ++ marks state events next) next later (ended ++ more) := by
  have mirrored := kept.mirrored
  cases moves with
  | act found form done =>
    cases mirrored with
    | walk frames =>
      refine ⟨active, [], keptStep kept (.walk frames) .nil (reportDispatched _) fun head => ?_⟩
      rw [marksWalk, passCountLogged]
      rfl
  | enter found form opened closed =>
    cases mirrored with
    | walk frames =>
      refine ⟨_, [], keptStep kept (.check (mirrorsEntered _ rfl) frames) .nil
        (reportDispatched _) fun head => ?_⟩
      rw [marksWalk, passCountLogged, begunCons, ite_self, Nat.zero_add]
      exact (Nat.zero_add _).symm
  | again ended read =>
    cases mirrored with
    | walk frames =>
      cases frames with
      | cons frame frames =>
        refine ⟨_, [], keptStep kept (.check (mirrorsAgain frame _) frames) .nil
          (reportZero _).symm fun head => ?_⟩
        rw [marksWalk, passCountLogged]
        rfl
  | @leave loop _ _ _ equal =>
    cases mirrored with
    | @check _ _ _ _ inner outer tested frames =>
      obtain ⟨made, total, counted⟩ := tested.passes
      refine ⟨outer, [inner], keptStep kept (.walk frames) (.cons ⟨tested.head, ?_⟩ .nil) ?_
        fun head => ?_⟩
      · rw [counted, total, Nat.add_zero]
      · have one : (⟨0, loop.passCount⟩ : Report) = .ofCounts 0 inner.passes :=
          reportExt rfl (by rw [counted, total]; rfl)
        exact (reportLeft _ _).trans (congrArg _ one)
      · rw [marksLeave, passCountLogged, begunCons, begunCons]
        simp [begun]
  | @pass loop outer store report differs =>
    cases mirrored with
    | @check _ _ _ _ inner outer tested frames =>
      refine ⟨_, [], keptStep kept (.walk (.cons (mirrorsBegun tested) frames)) .nil
        (reportZero _).symm fun head => ?_⟩
      rw [marksPass, passCountOne, tested.head, begunCons, begunCons]
      change _ = 0 + _
      dsimp only
      split <;> omega

structure Counted (program : Program) (past : List Mark) (state : State) : Prop where
  dispatched : ∀ entry ∈ dispatches (logOf past),
    program[entry.1]? = some entry.2 ∧ entry.2.closes = false
  left : ∀ loop ∈ leaves (logOf past), loop.head ∈ heads program
  kept : ∃ active ended, Kept past state active ended
  due : ∀ index, closesAt program index = false →
    dispatchCount index (logOf past) + state.due program index =
      rounds (owner? program index) past

theorem countedStart (program : Program) (store : Store) :
    Counted program [] (Program.start store) where
  dispatched := by intro entry member; contradiction
  left := by intro loop member; contradiction
  kept := ⟨[], [], .walk .nil, .nil, rfl, fun _ => rfl⟩
  due := by
    intro index _
    simp only [Program.start, State.due, CounterLang.due, Nat.zero_le, and_true]
    cases owner? program index <;> rfl

theorem countedMoves {program state events next past} (sound : Sound program state)
    (counted : Counted program past state) (moves : Moves program state events next) :
    Counted program (past ++ marks state events next) next where
  dispatched := by
    intro entry member
    rw [logAppend, logMarks, dispatchesAppend] at member
    rcases List.mem_append.mp member with earlier | now
    · exact counted.dispatched entry earlier
    · exact movesDispatch moves entry now
  left := by
    intro loop member
    rw [logAppend, logMarks, leavesAppend] at member
    rcases List.mem_append.mp member with earlier | now
    · exact counted.left loop earlier
    · exact movesLeft sound moves loop now
  kept := by
    obtain ⟨active, ended, kept⟩ := counted.kept
    obtain ⟨later, more, kept⟩ := keptMoves kept moves
    exact ⟨later, _, kept⟩
  due := fun index plain => dueMoves sound plain moves (counted.due index plain)

end Machine

namespace Program
open Machine

theorem recountsCounted {program : Program} {store last : Store} {history : List Mark}
    {report : Report} (recounts : program.Recounts store history ⟨last, .done report⟩) :
    ∃ cursor, program.size ≤ cursor ∧ Counted program history (.walk cursor [] last report) := by
  refine recountsKeep (Counted program) (fun history outcome => ∀ last report,
    outcome = ⟨last, .done report⟩ → ∃ cursor, program.size ≤ cursor ∧
      Counted program history (.walk cursor [] last report))
    countedMoves ?_ recounts (countedStart program store) last report rfl
  intro past state events outcome sound counted halts last report same
  cases halts with
  | @finish cursor store report ended =>
    cases same
    rw [List.map_nil, List.append_nil]
    exact ⟨cursor, (currentNone sound.nested).mp ended, counted⟩
  | refuse found refused => cases same
  | lost ended unread => cases same

end Program

namespace Machine

variable {program : Program} {history : List Mark} {cursor : Nat} {last : Store} {report : Report}

theorem plainMem {index : Nat} :
    index ∈ plain program ↔ index < program.size ∧ closesAt program index = false := by
  rw [plain, Finset.mem_filter, Finset.mem_range]

theorem countedRounds (counted : Counted program history (.walk cursor [] last report))
    (past : program.size ≤ cursor) {index : Nat} (member : index ∈ plain program) :
    dispatchCount index (logOf history) = rounds (owner? program index) history := by
  obtain ⟨inside, plain⟩ := plainMem.mp member
  have nothing : ¬ (owner? program index = none ∧ cursor ≤ index) := by
    intro ⟨_, order⟩
    omega
  have now := counted.due index plain
  rw [State.due, due, if_neg nothing, Nat.add_zero] at now
  exact now

theorem countedNever (counted : Counted program history (.walk cursor [] last report)) {index : Nat}
    (closes : closesAt program index = true) : dispatchCount index (logOf history) = 0 := by
  rw [dispatchCount, List.length_eq_zero_iff, List.filter_eq_nil_iff]
  intro entry member same
  obtain ⟨found, plain⟩ := counted.dispatched entry member
  rw [of_decide_eq_true same] at found
  rw [closesAt, found, Option.any_some, plain] at closes
  contradiction

theorem countedEnded (counted : Counted program history (.walk cursor [] last report)) :
    ∃ ended, List.Forall₂ Told (leaves (logOf history)) ended ∧
      report = .ofCounts (dispatches (logOf history)).length (ended.map Activation.passes).sum ∧
      ∀ head, passCount head history = begun head ended := by
  obtain ⟨active, ended, mirrored, told, report, passes⟩ := counted.kept
  cases mirrored with
  | walk frames =>
    cases frames
    exact ⟨ended, told, report, passes⟩

theorem countedIterations (counted : Counted program history (.walk cursor [] last report)) :
    Tells report.iterations (∑ head ∈ heads program, passCount head history) ∧
      Tells report.iterations ((leaves (logOf history)).map Loop.passes).sum := by
  obtain ⟨ended, told, rfl, passes⟩ := countedEnded counted
  have inside : ∀ inner ∈ ended, inner.head ∈ heads program := by
    intro inner member
    have same : inner.head ∈ (leaves (logOf history)).map Loop.head :=
      toldHeads told ▸ List.mem_map_of_mem member
    obtain ⟨loop, left, equal⟩ := List.mem_map.mp same
    exact equal ▸ counted.left loop left
  have tells := tellsWord (ended.map Activation.passes).sum
  refine ⟨?_, tellsMod (tells.wrapped.trans (toldWrapped told))⟩
  simp only [passes, begun]
  rw [sumByKey (heads program) Activation.head Activation.passes inside]
  exact tells

theorem countedActivations (counted : Counted program history (.walk cursor [] last report))
    (head : Nat) (fits : passCount head history < UInt64.size) :
    passCount head history = leftPasses head (logOf history) := by
  obtain ⟨ended, told, _, passes⟩ := countedEnded counted
  rw [passes] at fits ⊢
  exact toldExact told head fits

theorem sumByOwner (program : Program) (value : Option Nat → Nat) :
    ∑ index ∈ plain program, value (owner? program index) =
      value none * (direct program none).card +
        ∑ head ∈ heads program, value (some head) * (direct program (some head)).card := by
  have owned : ∀ index ∈ plain program,
      owner? program index ∈ Finset.insertNone (heads program) := by
    intro index _
    rw [Finset.mem_insertNone]
    intro head same
    obtain ⟨_, close, matched, _⟩ := ownerContains same
    exact headsMem.mpr ⟨close, matched⟩
  have bodies (owner : Option Nat) :
      ∑ index ∈ direct program owner, value (owner? program index) =
        value owner * (direct program owner).card := by
    rw [Nat.mul_comm]
    refine Finset.sum_const_nat fun index member => ?_
    rw [(Finset.mem_filter.mp member).2]
  rw [← Finset.sum_fiberwise_of_maps_to owned, Finset.sum_insertNone]
  exact congrArg₂ (· + ·) (bodies none) (Finset.sum_congr rfl fun head _ => bodies (some head))

theorem countedDispatches (counted : Counted program history (.walk cursor [] last report)) :
    (dispatches (logOf history)).length =
      ∑ index ∈ Finset.range program.size, dispatchCount index (logOf history) := by
  have inside : ∀ entry ∈ dispatches (logOf history), entry.1 ∈ Finset.range program.size := by
    intro entry member
    obtain ⟨found, _⟩ := counted.dispatched entry member
    exact Finset.mem_range.mpr (Array.getElem?_eq_some_iff.mp found).1
  have whole := sumByKey (Finset.range program.size) Prod.fst (fun _ => 1) inside
  simp only [List.map_const', List.sum_replicate_nat, Nat.mul_one] at whole
  exact whole.symm

theorem countedTotal (counted : Counted program history (.walk cursor [] last report))
    (past : program.size ≤ cursor) :
    (dispatches (logOf history)).length = (direct program none).card +
      ∑ head ∈ heads program, passCount head history * (direct program (some head)).card := by
  have closing : ∀ index ∈ (Finset.range program.size).filter
      (fun index => ¬ closesAt program index = false), dispatchCount index (logOf history) = 0 := by
    intro index member
    exact countedNever counted (Bool.eq_true_of_not_eq_false (Finset.mem_filter.mp member).2)
  calc (dispatches (logOf history)).length
      = ∑ index ∈ Finset.range program.size, dispatchCount index (logOf history) :=
        countedDispatches counted
    _ = ∑ index ∈ plain program, dispatchCount index (logOf history) := by
        rw [← Finset.sum_filter_add_sum_filter_not _ (fun index => closesAt program index = false),
          Finset.sum_eq_zero closing, Nat.add_zero, plain]
    _ = ∑ index ∈ plain program, rounds (owner? program index) history :=
        Finset.sum_congr rfl fun index member => countedRounds counted past member
    _ = _ := by
        rw [sumByOwner program fun owner => rounds owner history]
        simp only [rounds, Nat.one_mul]

theorem countedStatements (counted : Counted program history (.walk cursor [] last report))
    (past : program.size ≤ cursor) :
    Tells report.statements ((direct program none).card +
      ∑ head ∈ heads program, passCount head history * (direct program (some head)).card) := by
  obtain ⟨ended, told, rfl, passes⟩ := countedEnded counted
  rw [← countedTotal counted past]
  exact tellsWord _

end Machine

namespace Program
open Machine

theorem runsAccount {program : Program} {store last : Store} {events : List Event} {report : Report}
    (traced : program.Traces store events ⟨last, .done report⟩) :
    ∃ history, program.Recounts store history ⟨last, .done report⟩ ∧ logOf history = events ∧
      Accounted program history report := by
  obtain ⟨history, recounts, log⟩ := tracesRecounts.mp traced
  obtain ⟨cursor, past, counted⟩ := recountsCounted recounts
  have ends : ∀ index, closesAt program index = true ↔ ∃ head, Matched program head index := by
    intro index
    rw [closesAt, Option.any_eq_true]
    exact ⟨fun ⟨statement, found, closes⟩ => closingMatched (doneBalanced traced rfl) found closes,
      fun ⟨head, matched⟩ => matched.closes⟩
  have owned (owner : Option Nat) : ∀ index ∈ direct program owner,
      dispatchCount index (logOf history) = rounds owner history := by
    intro index member
    obtain ⟨member, same⟩ := Finset.mem_filter.mp member
    exact same ▸ countedRounds counted past member
  obtain ⟨iterations, passes⟩ := countedIterations counted
  refine ⟨history, recounts, log, owned none, fun head => owned (some head), ends, ?_,
    countedActivations counted, iterations, passes, countedStatements counted past⟩
  intro head close matched
  exact countedNever counted ((ends close).mpr ⟨head, matched⟩)

def triangle : Program :=
  #[⟨"clear x", "clear x;", 1, .act .clear "x"⟩,
    ⟨"clear y", "clear y;", 2, .act .clear "y"⟩,
    ⟨"while x not 2 do", "while x not 2 do;", 3, .loop "x" (.literal 2)⟩,
    ⟨"incr x", "incr x;", 4, .act .incr "x"⟩,
    ⟨"clear y", "clear y;", 5, .act .clear "y"⟩,
    ⟨"while y not x do", "while y not x do;", 6, .loop "y" (.named "x")⟩,
    ⟨"incr y", "incr y;", 7, .act .incr "y"⟩,
    ⟨"end", "end;", 8, .close⟩,
    ⟨"end", "end;", 9, .close⟩,
    ⟨"decr y", "decr y;", 10, .act .decr "y"⟩]

theorem triangleAccounts : ∃ events history,
    triangle.Traces .empty events ⟨⟨[("x", 2), ("y", 1)], by decide⟩, .done ⟨13, 5⟩⟩ ∧
      logOf history = events ∧ Accounted triangle history ⟨13, 5⟩ := by
  have finishes : triangle.Finishes .empty ⟨⟨[("x", 2), ("y", 1)], by decide⟩, .done ⟨13, 5⟩⟩ :=
    ⟨30, by decide⟩
  obtain ⟨events, traced⟩ := finishesTraces.mp finishes
  obtain ⟨history, _, log, accounted⟩ := runsAccount traced
  exact ⟨events, history, traced, log, accounted⟩

end Program
end CounterLang
