import CounterLang.Proofs.Courses

/-! Where a running machine looks and how it gets on. Every look at the program stays inside of
the block that is walked over. A walk never turns back: behind a statement it comes to later ones
only, and a loop that opens has a shorter span than the loop around it. -/
namespace CounterLang

namespace Machine
open Nesting

def span? (program : Program) (start stop : Nat) : Option (List Statement) :=
  if start ≤ stop ∧ stop ≤ program.size then some (between program start stop) else none

/- A step whose looks at the program are guarded: one at the statement before which a walk
stands, and one at the rest of the block where a loop opens. There is no step when a look goes
outside of the program. -/
def guarded? (program : Program) : State → Option Step
  | .walk cursor loops store report =>
    if cursor < blockEnd program loops then
      (program[cursor]?).bind fun statement =>
        if statement.opens then
          (span? program (cursor + 1) (blockEnd program loops)).map fun _ =>
            dispatch program cursor statement loops store report
        else some (dispatch program cursor statement loops store report)
    else some (finishBlock loops store report)
  | .check loop outer store report => some (test loop outer store report)

def route (program : Program) : Nat → State → List State
  | 0, _ => []
  | limit + 1, state =>
    state ::
      match step program state with
      | .next _ next => route program limit next
      | .halt _ _ => []

def visit? (program : Program) (depth : Nat) : State → Option Nat
  | .walk cursor loops _ _ =>
    if loops.length = depth ∧ cursor < blockEnd program loops then some cursor else none
  | .check _ _ _ _ => none

/- The statements that one walk takes up, with so many loops around it. It has ended where fewer
of them are. -/
def visits (program : Program) (depth : Nat) (states : List State) : List Nat :=
  (states.takeWhile fun state => depth ≤ state.around.length).filterMap (visit? program depth)

def resume? (program : Program) (depth : Nat) : Nat → State → Option State
  | 0, _ => none
  | limit + 1, state =>
    match step program state with
    | .next _ next =>
      if next.loops.length ≤ depth then some next else resume? program depth limit next
    | .halt _ _ => none

structure BodyInside (program : Program) (loops : List Loop) (index close : Nat) : Prop where
  start : index + 1 ≤ close
  stop : close < blockEnd program loops
  shorter : close - (index + 1) + 2 ≤ blockEnd program loops - blockStart loops
  closes : ∃ statement, program[close]? = some statement ∧ statement.closes = true

structure Taken (program : Program) (loops : List Loop) (index : Nat) : Prop where
  start : blockStart loops ≤ index
  stop : index < blockEnd program loops
  bound : blockEnd program loops ≤ program.size
  found : ∃ statement, program[index]? = some statement
  scanned : ∃ rest, span? program (index + 1) (blockEnd program loops) = some rest ∧
    rest.length = blockEnd program loops - (index + 1) ∧
    bodyLength? program loops index = closing? rest
  body : ∀ length, bodyLength? program loops index = some length →
    BodyInside program loops index (index + 1 + length)

structure Returned (program : Program) (loops : List Loop) (index cursor : Nat) : Prop where
  onward : index < cursor
  inside : cursor ≤ blockEnd program loops
  place : cursor = index + 1 ∨
    ∃ length, bodyLength? program loops index = some length ∧ cursor = index + 1 + length + 1

structure InRange (program : Program) (state : State) : Prop where
  guarded : guarded? program state = some (step program state)
  depth : 2 * state.loops.length ≤ program.size
  shorter : ∀ inner loop outer, state.loops = inner ++ loop :: outer →
    loop.bodyLength + 2 ≤ blockEnd program outer - blockStart outer

theorem guardedStep {program : Program} {state : State} (sound : Sound program state) :
    guarded? program state = some (step program state) := by
  cases state with
  | check loop outer store report => rfl
  | walk cursor loops store report =>
    have bound := nestedEnd sound.nested
    dsimp only [State.loops] at bound
    by_cases inside : cursor < blockEnd program loops
    · have found := Array.getElem?_eq_getElem (Nat.lt_of_lt_of_le inside bound)
      have current := currentSome.mpr ⟨inside, found⟩
      have span : span? program (cursor + 1) (blockEnd program loops) =
          some (between program (cursor + 1) (blockEnd program loops)) := if_pos ⟨inside, bound⟩
      simp only [guarded?, step, if_pos inside, found, current, span, Option.bind_some,
        Option.map_some, ite_self]
    · have ended := (currentNone sound.nested).mpr (Nat.le_of_not_lt inside)
      simp only [guarded?, step, if_neg inside]
      rw [State.loops] at ended
      rw [ended]

theorem takenInside {program : Program} {loops : List Loop} {index : Nat}
    (nested : Nested program loops) (start : blockStart loops ≤ index)
    (stop : index < blockEnd program loops) : Taken program loops index := by
  have bound := nestedEnd nested
  refine ⟨start, stop, bound, ⟨_, Array.getElem?_eq_getElem (Nat.lt_of_lt_of_le stop bound)⟩,
    ⟨_, if_pos ⟨stop, bound⟩, betweenLength bound, rfl⟩, fun length found => ?_⟩
  obtain ⟨inside, _, closes⟩ := bodyPlaced bound found
  exact ⟨by omega, inside, by omega, closes⟩

theorem placedShorter {program : Program} {outer : List Loop} {loop : Loop}
    (placed : Placed program outer loop) :
    loop.bodyLength + 2 ≤ blockEnd program outer - blockStart outer := by
  have start := placed.start
  have order := placed.order
  have stop := placed.stop
  unfold Loop.bodyLength
  omega

theorem nestedRoom {program : Program} {loops : List Loop} (nested : Nested program loops) :
    2 * loops.length + (blockEnd program loops - blockStart loops) ≤ program.size := by
  induction loops with
  | nil => simp [blockEnd, blockStart]
  | cons loop outer ih =>
    have room := ih nested.2
    have shorter := placedShorter nested.1
    simp only [List.length_cons, blockEnd, blockStart, Loop.bodyLength] at *
    omega

theorem movesCall {program : Program} {state next : State} {events : List Event}
    {inner loops : List Loop} {loop : Loop} (moves : Moves program state events next)
    (opened : state.loops = inner ++ loop :: loops) :
    (∃ later counted, next = .walk (loop.close + 1) loops later counted) ∨
      ∃ further other, next.loops = further ++ other :: loops ∧ other.close = loop.close := by
  cases moves with
  | act => exact .inr ⟨inner, loop, opened, rfl⟩
  | enter => exact .inr ⟨_ :: inner, loop, congrArg (_ :: ·) opened, rfl⟩
  | again =>
    cases inner with
    | nil =>
      cases opened
      exact .inr ⟨[], _, rfl, rfl⟩
    | cons first inner =>
      cases opened
      exact .inr ⟨_ :: inner, loop, rfl, rfl⟩
  | leave =>
    cases inner with
    | nil =>
      cases opened
      exact .inl ⟨_, _, rfl⟩
    | cons first inner =>
      cases opened
      exact .inr ⟨inner, loop, rfl, rfl⟩
  | pass => exact .inr ⟨inner, loop, opened, rfl⟩

inductive Ahead (base : List Loop) (index : Nat) : State → Prop where
  | here {cursor store report} (onward : index ≤ cursor) :
      Ahead base index (.walk cursor base store report)
  | within {state inner loop} (opened : state.loops = inner ++ loop :: base)
      (onward : index ≤ loop.close) : Ahead base index state

theorem aheadMoves {program : Program} {state next : State} {events : List Event}
    {base : List Loop} {index : Nat} (ahead : Ahead base index state)
    (moves : Moves program state events next) (inside : base.length ≤ next.around.length) :
    Ahead base index next := by
  cases ahead with
  | here onward =>
    cases moves with
    | act => exact .here (Nat.le_succ_of_le onward)
    | enter => exact .within (List.nil_append _).symm (by dsimp only; omega)
    | again => exact absurd inside (Nat.not_succ_le_self _)
  | within opened onward =>
    rcases movesCall moves opened with ⟨later, counted, rfl⟩ | ⟨further, other, still, close⟩
    · exact .here (Nat.le_succ_of_le onward)
    · exact .within still (close ▸ onward)

theorem aheadTaken {program : Program} {loops : List Loop} {index : Nat} {now : Store}
    {report : Report} {events : List Event} {next : State}
    (sound : Sound program (.walk index loops now report)) (stop : index < blockEnd program loops)
    (moves : Moves program (.walk index loops now report) events next) :
    Ahead loops (index + 1) next := by
  cases moves with
  | act => exact .here (Nat.le_refl _)
  | enter => exact .within (List.nil_append _).symm (Nat.le_add_right _ _)
  | again ended => exact absurd stop (Nat.not_lt_of_le ((currentNone sound.nested).mp ended))

theorem visitSome {program : Program} {depth place : Nat} {state : State}
    (visit : visit? program depth state = some place) :
    ∃ loops now report, state = .walk place loops now report ∧ loops.length = depth ∧
      place < blockEnd program loops := by
  cases state with
  | check => contradiction
  | walk cursor loops now report =>
    obtain ⟨⟨deep, stop⟩, same⟩ := Option.ite_none_right_eq_some.mp visit
    cases same
    exact ⟨loops, now, report, rfl, deep, stop⟩

theorem visitsEnded {program : Program} {depth : Nat} {state : State}
    (ended : ¬ depth ≤ state.around.length) (limit : Nat) :
    visits program depth (route program limit state) = [] := by
  cases limit with
  | zero => rfl
  | succ limit => rw [route, visits, List.takeWhile_cons_of_neg (by simpa using ended)]; rfl

theorem visitsCons {program : Program} {depth : Nat} {state : State}
    (inside : depth ≤ state.around.length) (rest : List State) :
    visits program depth (state :: rest) =
      (visit? program depth state).toList ++ visits program depth rest := by
  rw [visits, List.takeWhile_cons_of_pos (by simpa using inside), List.filterMap_cons]
  cases visit? program depth state <;> rfl

theorem visitsStep {program : Program} {depth limit place : Nat} {state : State}
    (member : place ∈ visits program depth (route program (limit + 1) state)) :
    visit? program depth state = some place ∨ ∃ events next, Moves program state events next ∧
      depth ≤ next.around.length ∧ place ∈ visits program depth (route program limit next) := by
  by_cases inside : depth ≤ state.around.length
  · rw [route, visitsCons inside] at member
    rcases List.mem_append.mp member with here | later
    · exact .inl (Option.mem_toList.mp here)
    · split at later
      · rename_i events next stepped
        by_cases further : depth ≤ next.around.length
        · exact .inr ⟨events, next, movesStep stepped, further, later⟩
        · rw [visitsEnded further] at later
          contradiction
      · contradiction
  · rw [visitsEnded inside] at member
    contradiction

theorem visitsAhead {program : Program} {base : List Loop} {index limit : Nat} {state : State}
    (ahead : Ahead base index state) :
    ∀ place ∈ visits program base.length (route program limit state), index ≤ place := by
  induction limit generalizing state with
  | zero => intro place member; contradiction
  | succ limit ih =>
    intro place member
    rcases visitsStep member with visit | ⟨events, next, moves, inside, later⟩
    · obtain ⟨loops, now, report, rfl, deep, _⟩ := visitSome visit
      cases ahead with
      | here onward => exact onward
      | within opened => exact absurd (openLonger opened) (Nat.not_lt_of_le (Nat.le_of_eq deep))
    · exact ih (aheadMoves ahead moves inside) place later

theorem visitsOnward {program : Program} {state : State} (sound : Sound program state)
    (depth limit : Nat) :
    (visits program depth (route program limit state)).Pairwise (· < ·) := by
  induction limit generalizing state with
  | zero => exact .nil
  | succ limit ih =>
    by_cases inside : depth ≤ state.around.length
    · have single : (visit? program depth state).toList.Pairwise (· < ·) := by
        cases visit? program depth state with
        | none => exact .nil
        | some place => exact List.pairwise_singleton _ _
      rw [route, visitsCons inside]
      split
      · rename_i events next stepped
        have moves := movesStep stepped
        refine List.pairwise_append.mpr ⟨single, ih (soundMoves sound moves), ?_⟩
        intro index here place later
        obtain ⟨loops, now, report, rfl, rfl, stop⟩ := visitSome (Option.mem_toList.mp here)
        exact visitsAhead (aheadTaken sound stop moves) place later
      · exact List.pairwise_append.mpr ⟨single, .nil, fun _ _ _ member => by contradiction⟩
    · rw [visitsEnded inside]
      exact .nil

theorem routeLater {program : Program} {state : State} (sound : Sound program state)
    {limit : Nat} {past later : List State} (whole : route program limit state = past ++ later) :
    ∃ fewer middle, Sound program middle ∧ later = route program fewer middle := by
  induction past generalizing limit state with
  | nil => exact ⟨limit, state, sound, whole.symm⟩
  | cons first past ih =>
    cases limit with
    | zero => contradiction
    | succ limit =>
      rw [route] at whole
      have rest := (List.cons.inj whole).2
      split at rest
      · rename_i events next stepped
        exact ih (soundMoves sound (movesStep stepped)) rest
      · obtain ⟨_, none⟩ := List.append_eq_nil_iff.mp rest.symm
        exact ⟨0, state, sound, none⟩

theorem resumedStep {program : Program} {state next : State} {depth limit : Nat}
    (resumed : resume? program depth (limit + 1) state = some next) :
    ∃ events middle, Moves program state events middle ∧
      (middle.loops.length ≤ depth ∧ next = middle ∨
        depth < middle.loops.length ∧ resume? program depth limit middle = some next) := by
  rw [resume?] at resumed
  split at resumed <;> try contradiction
  rename_i events middle stepped
  refine ⟨events, middle, movesStep stepped, ?_⟩
  split at resumed
  · rename_i shallow
    exact .inl ⟨shallow, (Option.some.inj resumed).symm⟩
  · rename_i deep
    exact .inr ⟨Nat.lt_of_not_le deep, resumed⟩

theorem resumedBehind {program : Program} {state next : State} {inner loops : List Loop}
    {loop : Loop} {limit : Nat} (sound : Sound program state)
    (opened : state.loops = inner ++ loop :: loops)
    (resumed : resume? program loops.length limit state = some next) :
    Sound program next ∧ ∃ later counted, next = .walk (loop.close + 1) loops later counted := by
  induction limit generalizing state inner loop with
  | zero => contradiction
  | succ limit ih =>
    obtain ⟨events, middle, moves, resumed⟩ := resumedStep resumed
    have after := soundMoves sound moves
    rcases movesCall moves opened with ⟨later, counted, same⟩ | ⟨further, other, still, close⟩
    · rcases resumed with ⟨_, rfl⟩ | ⟨deep, _⟩
      · exact ⟨after, later, counted, same⟩
      · rw [same] at deep
        exact absurd deep (Nat.lt_irrefl _)
    · rcases resumed with ⟨shallow, _⟩ | ⟨_, resumed⟩
      · exact absurd (openLonger still) (Nat.not_lt_of_le shallow)
      · rw [← close]
        exact ih after still resumed

theorem resumedReturned {program : Program} {loops : List Loop} {index limit : Nat}
    {now : Store} {report : Report} {next : State}
    (sound : Sound program (.walk index loops now report))
    (stop : index < blockEnd program loops)
    (resumed : resume? program loops.length limit (.walk index loops now report) = some next) :
    ∃ cursor later counted, next = .walk cursor loops later counted ∧
      Returned program loops index cursor := by
  cases limit with
  | zero => contradiction
  | succ limit =>
    obtain ⟨events, middle, moves, resumed⟩ := resumedStep resumed
    have after := soundMoves sound moves
    cases moves with
    | act =>
      rcases resumed with ⟨_, rfl⟩ | ⟨deep, _⟩
      · exact ⟨index + 1, _, _, rfl, Nat.lt_succ_self _, stop, .inl rfl⟩
      · exact absurd deep (Nat.lt_irrefl _)
    | @enter _ _ _ _ _ _ _ _ length _ _ _ closed =>
      rcases resumed with ⟨shallow, _⟩ | ⟨_, resumed⟩
      · exact absurd shallow (Nat.not_succ_le_self _)
      · obtain ⟨behind, later, counted, rfl⟩ :=
          resumedBehind after (List.nil_append _).symm resumed
        have onward : index < index + 1 + length + 1 := by omega
        exact ⟨_, later, counted, rfl, onward, behind.place.2.1, .inr ⟨length, closed, rfl⟩⟩
    | again ended =>
      exact absurd stop (Nat.not_lt_of_le ((currentNone sound.nested).mp ended))

end Machine

namespace Program
open Machine

theorem arrivesInRange {program : Program} {store : Store} {past : List Event} {state : State}
    (arrives : program.Arrives store past state) : InRange program state := by
  have sound := arrivesSound arrives
  refine ⟨guardedStep sound, ?_, fun inner loop outer opened => ?_⟩
  · have room := nestedRoom sound.nested
    omega
  · have nested := sound.nested
    rw [opened] at nested
    exact placedShorter (nestedOuter nested).1

theorem walksAdvance (program : Program) (store : Store) :
    (∀ past state, program.Arrives store past state → InRange program state) ∧
    (∀ past index loops now report, program.Arrives store past (.walk index loops now report) →
      index < blockEnd program loops → Taken program loops index ∧ ∀ limit next,
        resume? program loops.length limit (.walk index loops now report) = some next →
        ∃ cursor later counted, next = .walk cursor loops later counted ∧
          Returned program loops index cursor) ∧
    ∀ limit past later, route program limit (start store) = past ++ later →
      ∀ depth, (visits program depth later).Pairwise (· < ·) := by
  refine ⟨fun _ _ => arrivesInRange, ?_, ?_⟩
  · intro past index loops now report arrives stop
    have sound := arrivesSound arrives
    exact ⟨takenInside sound.nested sound.place.1 stop,
      fun limit next => resumedReturned sound stop⟩
  · intro limit past later whole depth
    obtain ⟨fewer, middle, sound, rfl⟩ := routeLater (soundStart program store) whole
    exact visitsOnward sound depth fewer

def tight : Program :=
  #[⟨"while x not 1 do", "while x not 1 do;", 1, .loop "x" (.literal 1)⟩,
    ⟨"incr x", "incr x;", 2, .act .incr "x"⟩,
    ⟨"while x not 1 do", "while x not 1 do;", 3, .loop "x" (.literal 1)⟩,
    ⟨"end", "end;", 4, .close⟩, ⟨"end", "end;", 5, .close⟩]

theorem tightAdvances :
    let around : Loop := ⟨0, ⟨"while x not 1 do", "while x not 1 do;", 1, .loop "x" (.literal 1)⟩,
      4, "x", .literal 1, 1, 0⟩
    let inside : State := .walk 2 [around] (.single "x" 1) ⟨2, 0⟩
    (∃ past, tight.Arrives (.single "x" 0) past inside) ∧ Taken tight [around] 2 ∧
      resume? tight 1 9 inside = some (.walk 4 [around] (.single "x" 1) ⟨3, 0⟩) ∧
      Returned tight [around] 2 4 ∧
      ∃ past later, route tight 20 (start (.single "x" 0)) = past ++ later ∧
        visits tight 1 later = [1, 2] ∧ (visits tight 1 later).Pairwise (· < ·) := by
  intro around inside
  have entered : tight.Arrives (.single "x" 0) _
      (.check around [] (.single "x" 0) ⟨1, 0⟩) := .next .start rfl
  have first : tight.Arrives (.single "x" 0) _
      (.walk 1 [around] (.single "x" 0) ⟨1, 0⟩) := .next entered rfl
  have arrives : tight.Arrives (.single "x" 0) _ inside := .next first rfl
  have resumed : resume? tight 1 9 inside =
      some (.walk 4 [around] (.single "x" 1) ⟨3, 0⟩) := by decide
  have parts := (List.take_append_drop 2 (route tight 20 (start (.single "x" 0)))).symm
  obtain ⟨_, calls, advances⟩ := walksAdvance tight (.single "x" 0)
  obtain ⟨taken, returns⟩ := calls _ _ _ _ _ arrives (by decide)
  obtain ⟨cursor, later, counted, same, returned⟩ := returns _ _ resumed
  cases same
  exact ⟨⟨_, arrives⟩, taken, resumed, returned, _, _, parts, by decide, advances _ _ _ parts 1⟩

end Program
end CounterLang
