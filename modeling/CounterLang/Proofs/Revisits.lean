import Mathlib.Data.Fintype.BigOperators
import Mathlib.Data.Fintype.Option
import CounterLang.Proofs.Courses
import CounterLang.Proofs.Exchange

/-! Stores at the stop tests of one activation. What comes behind a test is settled by the store
alone: what the loop saw of its target before, how many passes it has made and what was
counted make no difference. So a store that came back would come back for ever, and an
activation that ends has made fewer passes than its body has stores to go through. -/
namespace CounterLang

def Loop.worn (loop : Loop) (reach passCount : UInt64) : Loop :=
  { loop with reach := reach, passCount := passCount }

def Loop.Twin (first second : Loop) : Prop :=
  ∃ passCount, second = first.worn first.reach passCount

inductive State.Twin : State → State → Prop where
  | walk {cursor loops others first second report count}
      (frames : List.Forall₂ Loop.Twin loops others) (same : first.Same second) :
      Twin (.walk cursor loops first report) (.walk cursor others second count)
  | check {loop other loops others first second report count} (inner : loop.Twin other)
      (frames : List.Forall₂ Loop.Twin loops others) (same : first.Same second) :
      Twin (.check loop loops first report) (.check other others second count)

namespace Machine

inductive Lasts (program : Program) (depth : Nat) : State → Nat → Prop where
  | halt {state events outcome} (stepped : step program state = .halt events outcome) :
      Lasts program depth state 0
  | leave {state events next} (stepped : step program state = .next events next)
      (outside : next.loops.length ≤ depth) : Lasts program depth state 0
  | more {state events next steps} (stepped : step program state = .next events next)
      (inside : depth < next.loops.length) (later : Lasts program depth next steps) :
      Lasts program depth state (steps + 1)

section Twins

variable {program : Program} {state other next : State} {events : List Event}
  {loops others : List Loop}

theorem twinSelf (loop : Loop) : loop.Twin loop := ⟨loop.passCount, rfl⟩

theorem twinBack {first second : Loop} (twin : first.Twin second) : second.Twin first := by
  obtain ⟨passes, rfl⟩ := twin
  exact ⟨first.passCount, rfl⟩

theorem framesSelf (loops : List Loop) : List.Forall₂ Loop.Twin loops loops :=
  List.forall₂_same.mpr fun loop _ => twinSelf loop

theorem framesBack (frames : List.Forall₂ Loop.Twin loops others) :
    List.Forall₂ Loop.Twin others loops :=
  (frames.imp fun _ _ => twinBack).flip

theorem statesBack (twin : state.Twin other) : other.Twin state := by
  cases twin with
  | walk frames same => exact .walk (framesBack frames) fun name => (same name).symm
  | check inner frames same =>
    exact .check (twinBack inner) (framesBack frames) fun name => (same name).symm

theorem twinDepth (twin : state.Twin other) : state.loops.length = other.loops.length := by
  cases twin with
  | walk frames same => exact frames.length_eq
  | check inner frames same => exact congrArg (· + 1) frames.length_eq

theorem blockEndTwin (frames : List.Forall₂ Loop.Twin loops others) :
    blockEnd program loops = blockEnd program others := by
  cases frames with
  | nil => rfl
  | cons inner outer =>
    obtain ⟨passes, rfl⟩ := inner
    rfl

theorem currentTwin (frames : List.Forall₂ Loop.Twin loops others) (cursor : Nat) :
    current? program loops cursor = current? program others cursor := by
  rw [current?, current?, blockEndTwin frames]

theorem bodyLengthTwin (frames : List.Forall₂ Loop.Twin loops others) (head : Nat) :
    bodyLength? program loops head = bodyLength? program others head := by
  rw [bodyLength?, bodyLength?, blockEndTwin frames]

theorem movesTwin (twin : state.Twin other) (moves : Moves program state events next) :
    ∃ more later, Moves program other more later ∧ next.Twin later := by
  cases moves with
  | act found form done =>
    cases twin with
    | walk frames same =>
      rw [currentTwin frames] at found
      obtain ⟨later, acted, after⟩ := sameAct same done
      exact ⟨_, _, .act found form acted, .walk frames after⟩
  | enter found form opened closed =>
    cases twin with
    | walk frames same =>
      rw [currentTwin frames] at found
      rw [sameHeader same] at opened
      rw [bodyLengthTwin frames] at closed
      exact ⟨_, _, .enter found form opened closed, .check (twinSelf _) frames same⟩
  | again ended read =>
    cases twin with
    | walk frames same =>
      rw [currentTwin frames] at ended
      rw [valueAlike fun name _ => same name] at read
      cases frames with
      | cons inner outer =>
        obtain ⟨passes, rfl⟩ := inner
        exact ⟨_, _, .again ended read, .check ⟨passes + 1, rfl⟩ outer same⟩
  | leave equal =>
    cases twin with
    | check inner frames same =>
      obtain ⟨passes, rfl⟩ := inner
      rw [same] at equal
      exact ⟨_, _, .leave equal, .walk frames same⟩
  | pass differs =>
    cases twin with
    | check inner frames same =>
      obtain ⟨passes, rfl⟩ := inner
      rw [same] at differs
      exact ⟨_, _, .pass differs, .walk (.cons ⟨passes, rfl⟩ frames) same⟩

theorem stepTwin (twin : state.Twin other) (stepped : step program state = .next events next) :
    ∃ more later, step program other = .next more later ∧ next.Twin later := by
  obtain ⟨more, later, moves, after⟩ := movesTwin twin (movesStep stepped)
  exact ⟨more, later, stepMoves moves, after⟩

theorem lastsTwin {depth steps total : Nat} (lasts : Lasts program depth state steps)
    (twin : state.Twin other) (long : Lasts program depth other total) : steps = total := by
  induction lasts generalizing other total with
  | halt stepped =>
    cases long with
    | halt => rfl
    | leave => rfl
    | more also =>
      obtain ⟨_, _, moved, _⟩ := stepTwin (statesBack twin) also
      rw [stepped] at moved
      contradiction
  | leave stepped outside =>
    obtain ⟨_, _, moved, after⟩ := stepTwin twin stepped
    cases long with
    | halt => rfl
    | leave => rfl
    | more also inside =>
      cases moved.symm.trans also
      rw [← twinDepth after] at inside
      omega
  | more stepped inside later ih =>
    obtain ⟨_, _, moved, after⟩ := stepTwin twin stepped
    cases long with
    | halt also =>
      rw [moved] at also
      contradiction
    | leave also outside =>
      cases moved.symm.trans also
      rw [← twinDepth after] at outside
      omega
    | more also _ further =>
      cases moved.symm.trans also
      rw [ih after further]

theorem lastsEnds {outcome : Outcome} (ends : Ends program state outcome) (depth : Nat) :
    ∃ steps, Lasts program depth state steps := by
  obtain ⟨limit, run⟩ := ends
  induction limit generalizing state with
  | zero => contradiction
  | succ limit ih =>
    rw [Machine.run] at run
    split at run
    · rename_i next stepped
      by_cases inside : depth < next.loops.length
      · obtain ⟨steps, later⟩ := ih run
        exact ⟨_, .more stepped inside later⟩
      · exact ⟨0, .leave stepped (Nat.le_of_not_lt inside)⟩
    · rename_i stepped
      exact ⟨0, .halt stepped⟩

end Twins

/- A test of a loop, with this store, so many steps before the present state at least. -/
def Precedes (program : Program) (outer : List Loop) (loop : Loop) (earlier : Store) (gap : Nat)
    (state : State) : Prop :=
  ∃ reach passes report, loop.target.value earlier = .ok reach ∧
    ∀ steps, Lasts program outer.length state steps → ∃ total ≥ steps + gap,
      Lasts program outer.length (.check (loop.worn reach passes) outer earlier report) total

structure Along (program : Program) (outer : List Loop) (tests : List Store) (state : State)
    (loop : Loop) : Prop where
  opened : ∃ inner, state.loops = inner ++ loop :: outer
  counted : ∃ passes, tests.length = passes + 1 ∧ loop.passCount = .ofNat passes
  outside : ∀ earlier ∈ tests, ∀ name, name ∉ loop.changes program →
    earlier.get? name = state.store.get? name
  before : ∀ earlier ∈ tests, Precedes program outer loop earlier 0 state

section Activations

variable {program : Program} {outer : List Loop} {tests : List Store} {state next : State}
  {events : List Event} {loop : Loop} {now earlier : Store} {report : Report} {gap : Nat}

theorem precedesHere (read : loop.target.value now = .ok loop.reach) :
    Precedes program outer loop now 0 (.check loop outer now report) :=
  ⟨loop.reach, loop.passCount, report, read, fun steps lasts => ⟨steps, Nat.le_refl _, lasts⟩⟩

theorem precedesStep (precedes : Precedes program outer loop earlier gap state)
    (moves : Moves program state events next) (inside : outer.length < next.loops.length) :
    Precedes program outer loop earlier (gap + 1) next := by
  obtain ⟨reach, passes, report, read, longer⟩ := precedes
  refine ⟨reach, passes, report, read, fun steps lasts => ?_⟩
  obtain ⟨total, most, long⟩ := longer _ (.more (stepMoves moves) inside lasts)
  exact ⟨total, by omega, long⟩

theorem precedesLess (precedes : Precedes program outer loop earlier gap state) :
    Precedes program outer loop earlier 0 state := by
  obtain ⟨reach, passes, report, read, longer⟩ := precedes
  refine ⟨reach, passes, report, read, fun steps lasts => ?_⟩
  obtain ⟨total, most, long⟩ := longer steps lasts
  exact ⟨total, Nat.le_of_add_right_le most, long⟩

theorem precedesDiffers {steps : Nat} (read : loop.target.value now = .ok loop.reach)
    (precedes : Precedes program outer loop earlier (gap + 1) (.check loop outer now report))
    (lasts : Lasts program outer.length (.check loop outer now report) steps) :
    ¬ earlier.Same now := by
  intro same
  obtain ⟨reach, passes, counted, seen, longer⟩ := precedes
  obtain ⟨total, more, long⟩ := longer steps lasts
  have equal : reach = loop.reach := by
    rw [valueAlike fun name _ => same name] at seen
    exact Except.ok.inj (seen.symm.trans read)
  subst reach
  have twin : (State.check (loop.worn loop.reach passes) outer earlier counted).Twin
      (.check loop outer now report) := .check ⟨loop.passCount, rfl⟩ (framesSelf outer) same
  have balance := lastsTwin long twin lasts
  omega

theorem alongEnter (read : loop.target.value now = .ok loop.reach) (fresh : loop.passCount = 0) :
    Along program outer [now] (.check loop outer now report) loop where
  opened := ⟨[], rfl⟩
  counted := ⟨0, rfl, fresh⟩
  outside := List.forall_mem_singleton.mpr fun _ _ => rfl
  before := List.forall_mem_singleton.mpr (precedesHere read)

theorem alongOutside (along : Along program outer tests state loop) (sound : Sound program state)
    (moves : Moves program state events next) : ∀ earlier ∈ tests, ∀ name,
      name ∉ loop.changes program → earlier.get? name = next.store.get? name := by
  intro earlier tested name never
  obtain ⟨inner, opened⟩ := along.opened
  have member : loop ∈ state.loops := by rw [opened]; simp
  rw [movesOutside sound moves member never]
  exact along.outside earlier tested name never

theorem alongWithin (along : Along program outer tests state loop) (sound : Sound program state)
    (moves : Moves program state events next) (inside : outer.length < next.around.length) :
    Along program outer tests next loop := by
  obtain ⟨inner, opened⟩ := along.opened
  obtain ⟨further, still⟩ := movesWithin moves opened inside
  refine ⟨⟨further, still⟩, along.counted, alongOutside along sound moves, fun earlier tested => ?_⟩
  exact precedesLess (precedesStep (along.before earlier tested) moves (openLonger still))

theorem alongTest {tested : Loop} (along : Along program outer tests state loop)
    (sound : Sound program state)
    (moves : Moves program state events (.check tested outer now report)) :
    Along program outer (tests ++ [now]) (.check tested outer now report) tested ∧
      ∀ earlier ∈ tests,
        Precedes program outer tested earlier 1 (.check tested outer now report) := by
  obtain ⟨inner, opened⟩ := along.opened
  have read := (soundMoves sound moves).place
  have outside := alongOutside along sound moves
  obtain ⟨goal, rfl⟩ := movesTest moves opened
  have apart : ∀ earlier ∈ tests, Precedes program outer (loop.again goal) earlier 1
      (.check (loop.again goal) outer now report) := fun earlier before =>
    precedesStep (along.before earlier before) moves (Nat.lt_succ_self _)
  refine ⟨⟨⟨[], rfl⟩, ?_, List.forall_mem_append.mpr ⟨outside, ?_⟩,
    List.forall_mem_append.mpr ⟨fun earlier before => precedesLess (apart earlier before), ?_⟩⟩,
    apart⟩
  · obtain ⟨passes, total, told⟩ := along.counted
    exact ⟨passes + 1, by rw [List.length_append, total]; rfl, againCounted told goal⟩
  · exact List.forall_mem_singleton.mpr fun _ _ => rfl
  · exact List.forall_mem_singleton.mpr (precedesHere read)

end Activations

end Machine

section Few

variable {names : List String} {first second last : Store} {tests : List Store}

def Store.told (names : List String) (store : Store) (name : {name // name ∈ names.toFinset}) :
    Option (Fin UInt64.size) :=
  (store.get? name).map UInt64.toFin

theorem toldSame (told : first.told names = second.told names)
    (outside : ∀ name, name ∉ names → first.get? name = second.get? name) : first.Same second := by
  intro name
  by_cases inside : name ∈ names
  · have equal := congrFun told ⟨name, List.mem_toFinset.mpr inside⟩
    exact Option.map_injective (fun _ _ => UInt64.toFin_inj.mp) equal
  · exact outside name inside

theorem storesFew
    (outside : ∀ earlier ∈ tests, ∀ name, name ∉ names → earlier.get? name = last.get? name)
    (distinct : tests.Pairwise fun earlier later => ¬ earlier.Same later) :
    tests.length ≤ (2 ^ 64 + 1) ^ names.toFinset.card := by
  have apart : (tests.map (Store.told names)).Nodup := by
    refine List.pairwise_map.mpr (distinct.imp_of_mem fun here there differs told => ?_)
    refine differs (toldSame told fun name other => ?_)
    rw [outside _ here name other, outside _ there name other]
  have few := apart.length_le_card
  rwa [List.length_map, Fintype.card_fun, Fintype.card_option, Fintype.card_fin,
    Fintype.card_coe] at few

end Few

namespace Program
open Machine

variable {program : Program} {store : Store} {outer : List Loop} {tests : List Store}
  {state : State}

theorem courseAlong (course : Course program store outer tests state) :
    ∃ loop, Along program outer tests state loop := by
  induction course with
  | @enter past cursor before report statement loop now counted arrives stepped =>
    have moves := movesStep stepped
    have read := (soundMoves (arrivesSound arrives) moves).place
    have fresh : loop.passCount = 0 := by
      cases moves
      rfl
    exact ⟨loop, alongEnter read fresh⟩
  | within before stepped inside ih =>
    obtain ⟨past, arrives⟩ := courseArrives before
    obtain ⟨loop, along⟩ := ih
    exact ⟨loop, alongWithin along (arrivesSound arrives) (movesStep stepped) inside⟩
  | test before stepped ih =>
    obtain ⟨past, arrives⟩ := courseArrives before
    obtain ⟨loop, along⟩ := ih
    exact ⟨_, (alongTest along (arrivesSound arrives) (movesStep stepped)).1⟩

theorem courseDistinct (course : Course program store outer tests state) {steps : Nat}
    (lasts : Lasts program outer.length state steps) :
    tests.Pairwise fun earlier later => ¬ earlier.Same later := by
  -- One step back there is one step more ahead, so every test has a count of its own.
  induction course generalizing steps with
  | enter arrives stepped => exact List.pairwise_singleton _ _
  | within before stepped inside ih =>
    obtain ⟨loop, along⟩ := courseAlong before
    obtain ⟨inner, opened⟩ := along.opened
    obtain ⟨further, still⟩ := movesWithin (movesStep stepped) opened inside
    exact ih (.more stepped (openLonger still) lasts)
  | test before stepped ih =>
    obtain ⟨past, arrives⟩ := courseArrives before
    obtain ⟨loop, along⟩ := courseAlong before
    have sound := arrivesSound arrives
    have moves := movesStep stepped
    have read := (soundMoves sound moves).place
    obtain ⟨_, apart⟩ := alongTest along sound moves
    refine List.pairwise_append.mpr ⟨ih (.more stepped (Nat.lt_succ_self _) lasts),
      List.pairwise_singleton _ _, fun earlier tested later last => ?_⟩
    rw [List.mem_singleton.mp last]
    exact precedesDiffers read (apart earlier tested) lasts

theorem leavesLast {loop : Loop} {now : Store} {counted : Report} {next : State}
    (left : step program (.check loop outer now counted) = .next [.leave loop] next) :
    Lasts program outer.length (.check loop outer now counted) 0 := by
  have moves := movesStep left
  cases moves with
  | leave equal => exact .leave left (Nat.le_refl _)

theorem leavesFew {loop : Loop} {now : Store} {counted : Report} {next : State}
    (course : Course program store outer tests (.check loop outer now counted))
    (left : step program (.check loop outer now counted) = .next [.leave loop] next) :
    ∃ passes, tests.length = passes + 1 ∧ Tells loop.passes passes ∧
      passes < (2 ^ 64 + 1) ^ (loop.changes program).toFinset.card := by
  obtain ⟨known, along⟩ := courseAlong course
  obtain ⟨inner, opened⟩ := along.opened
  have same : known = loop := by
    cases inner with
    | nil =>
      cases opened
      rfl
    | cons first inner =>
      exact absurd (openLonger (List.cons.inj opened).2) (Nat.lt_irrefl _)
  subst same
  have few := storesFew along.outside (courseDistinct course (leavesLast left))
  obtain ⟨passes, total, told⟩ := along.counted
  rw [total] at few
  exact ⟨passes, total, passesTold told, few⟩

theorem revisitsNever :
    (∀ past inner loop outer state, program.Arrives store past state →
      state.loops = inner ++ loop :: outer → ∃ tests, Course program store outer tests state) ∧
    (∀ outcome, program.Finishes store outcome → ∀ outer tests state,
      Course program store outer tests state →
        tests.Pairwise fun earlier later => ¬ earlier.Same later) ∧
    ∀ outer tests loop now counted next,
      Course program store outer tests (.check loop outer now counted) →
      step program (.check loop outer now counted) = .next [.leave loop] next →
        (tests.Pairwise fun earlier later => ¬ earlier.Same later) ∧
        ∃ passes, tests.length = passes + 1 ∧ Tells loop.passes passes ∧
          passes < (2 ^ 64 + 1) ^ (loop.changes program).toFinset.card ∧
          ((loop.changes program).toFinset.card = 0 → passes = 0) := by
  refine ⟨fun _ _ _ _ _ arrives opened => openCourse arrives opened, ?_, ?_⟩
  · intro outcome finishes outer tests state course
    obtain ⟨past, arrives⟩ := courseArrives course
    obtain ⟨steps, lasts⟩ := lastsEnds ((arrivesEnds arrives outcome).mp finishes) outer.length
    exact courseDistinct course lasts
  · intro outer tests loop now counted next course left
    obtain ⟨passes, total, told, few⟩ := leavesFew course left
    refine ⟨courseDistinct course (leavesLast left), passes, total, told, few, fun nothing => ?_⟩
    rw [nothing, pow_zero] at few
    exact Nat.lt_one_iff.mp few

def climb : Program :=
  #[⟨"while x not 1 do", "while x not 1 do;", 1, .loop "x" (.literal 1)⟩,
    ⟨"incr x", "incr x;", 2, .act .incr "x"⟩,
    ⟨"while y not x do", "while y not x do;", 3, .loop "y" (.named "x")⟩,
    ⟨"incr y", "incr y;", 4, .act .incr "y"⟩,
    ⟨"end", "end;", 5, .close⟩, ⟨"end", "end;", 6, .close⟩]

theorem climbNeverRevisits :
    let low : Store := ⟨[("x", 0), ("y", 0)], by decide⟩
    let middle : Store := ⟨[("x", 1), ("y", 0)], by decide⟩
    let high : Store := ⟨[("x", 1), ("y", 1)], by decide⟩
    let around : Loop := ⟨0, ⟨"while x not 1 do", "while x not 1 do;", 1, .loop "x" (.literal 1)⟩,
      5, "x", .literal 1, 1, 0⟩
    let loop : Loop := ⟨2, ⟨"while y not x do", "while y not x do;", 3, .loop "y" (.named "x")⟩,
      4, "y", .named "x", 1, 1⟩
    climb.Finishes low ⟨high, .done ⟨4, 2⟩⟩ ∧
      climb.Course low [around] [middle, high] (.check loop [around] high ⟨4, 0⟩) ∧
      ¬ middle.Same high ∧ ∃ passes, [middle, high].length = passes + 1 ∧
        Tells loop.passes passes ∧ passes < (2 ^ 64 + 1) ^ 1 := by
  intro low middle high around loop
  have finishes : climb.Finishes low ⟨high, .done ⟨4, 2⟩⟩ := ⟨20, by decide⟩
  have entered : climb.Arrives low _ (.check around [] low ⟨1, 0⟩) := .next .start rfl
  have inside : climb.Arrives low _ (.walk 1 [around] low ⟨1, 0⟩) := .next entered rfl
  have raised : climb.Arrives low _ (.walk 2 [around] middle ⟨2, 0⟩) := .next inside rfl
  have first : climb.Course low [around] [middle]
      (.check { loop with passCount := 0 } [around] middle ⟨3, 0⟩) := .enter raised rfl
  have below : climb.Course low [around] [middle]
      (.walk 3 [{ loop with passCount := 0 }, around] middle ⟨3, 0⟩) :=
    .within first rfl (by decide)
  have above : climb.Course low [around] [middle]
      (.walk 4 [{ loop with passCount := 0 }, around] high ⟨4, 0⟩) :=
    .within below rfl (by decide)
  have course : climb.Course low [around] [middle, high] (.check loop [around] high ⟨4, 0⟩) :=
    .test above rfl
  obtain ⟨_, distinct, left⟩ := @revisitsNever climb low
  have apart := distinct _ finishes _ _ _ course
  obtain ⟨_, passes, total, told, few, _⟩ := left _ _ _ _ _ _ course rfl
  exact ⟨finishes, course, by simpa using apart, passes, total, told, few⟩

end Program
end CounterLang
