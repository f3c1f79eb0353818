import CounterLang.Proofs.Transitions

/-! Runs as a whole. What is computed under a limit settles on an answer when some
limit is enough for it, and then no other limit gives another one; so a run
ends with one outcome. What every step keeps holds at the end of a run, for
the events of the whole run. -/
namespace CounterLang

def Settles {α : Type} (run : Nat → Option α) (answer : α) : Prop :=
  ∃ limit, run limit = some answer

def Steady {α : Type} (run : Nat → Option α) : Prop :=
  ∀ limit answer, run limit = some answer → ∀ more, run (limit + more) = some answer

section Limits

variable {α β : Type}

theorem settlesOnce {run : Nat → Option α} {first second : α} (steady : Steady run)
    (left : Settles run first) (right : Settles run second) : first = second := by
  obtain ⟨limit, h⟩ := left
  obtain ⟨other, g⟩ := right
  have long := steady limit first h other
  rw [Nat.add_comm, steady other second g limit] at long
  exact (Option.some.inj long).symm

end Limits

namespace Machine

def Ends (program : Program) (state : State) (outcome : Outcome) : Prop :=
  ∃ limit, run program limit state = some outcome

theorem endsMoves {program state events next} (moves : Moves program state events next)
    (outcome : Outcome) : Ends program state outcome ↔ Ends program next outcome := by
  apply Iff.intro
  · intro ⟨limit, h⟩
    cases limit with
    | zero => simp [run] at h
    | succ limit =>
      rw [run, stepMoves moves] at h
      exact ⟨limit, h⟩
  · intro ⟨limit, h⟩
    exact ⟨limit + 1, by rw [run, stepMoves moves]; exact h⟩

theorem endsHalts {program state events last} (halts : Halts program state events last)
    (outcome : Outcome) : Ends program state outcome ↔ outcome = last := by
  apply Iff.intro
  · intro ⟨limit, h⟩
    cases limit with
    | zero => simp [run] at h
    | succ limit =>
      rw [run, stepHalts halts] at h
      exact (Option.some.inj h).symm
  · intro same
    subst outcome
    exact ⟨1, by rw [run, stepHalts halts]⟩

theorem movesStep {program state events next} (stepped : step program state = .next events next) :
    Moves program state events next := by
  rcases movesOrHalts program state with ⟨other, later, moves⟩ | ⟨other, last, halts⟩
  · rw [stepMoves moves] at stepped
    cases stepped
    exact moves
  · rw [stepHalts halts] at stepped
    contradiction

theorem steadyRun (program : Program) (state : State) :
    Steady fun limit => run program limit state :=
  fun _ _ h more => runFurther h more

theorem endsOnce {program state first second} (left : Ends program state first)
    (right : Ends program state second) : first = second :=
  settlesOnce (steadyRun program state) left right

theorem recordKeeps {program : Program} {kept : List Event → State → Prop}
    {reached : List Event → Outcome → Prop}
    (moves : ∀ {past state events next}, kept past state → Moves program state events next →
      kept (past ++ events) next)
    (halts : ∀ {past state events outcome}, kept past state → Halts program state events outcome →
      reached (past ++ events) outcome)
    {limit state past events outcome} (now : kept past.reverse state)
    (h : record program limit state past = some (events, outcome)) : reached events outcome := by
  induction limit generalizing state past with
  | zero => simp [record] at h
  | succ limit ih =>
    rcases movesOrHalts program state with ⟨new, next, move⟩ | ⟨new, last, halt⟩
    · simp only [record, stepMoves move] at h
      refine ih ?_ h
      have later := moves now move
      simpa only [List.reverse_append, List.reverse_reverse] using later
    · simp only [record, stepHalts halt] at h
      cases h
      have end_ := halts now halt
      simpa only [List.reverse_append, List.reverse_reverse] using end_

end Machine

namespace Program

def Finishes (program : Program) (store : Store) (outcome : Outcome) : Prop :=
  ∃ limit, program.run limit store = some outcome

def Traces (program : Program) (store : Store) (events : List Event) (outcome : Outcome) : Prop :=
  ∃ limit, program.trace limit store = some (events, outcome)

theorem finishesEnds {program : Program} {store outcome} :
    program.Finishes store outcome ↔ Machine.Ends program (start store) outcome := Iff.rfl

theorem finishesOnce {program : Program} {store first second}
    (left : program.Finishes store first) (right : program.Finishes store second) :
    first = second :=
  Machine.endsOnce left right

inductive Arrives (program : Program) (store : Store) : List Event → State → Prop where
  | start : Arrives program store [] (start store)
  | next {past state events next} (before : Arrives program store past state)
      (stepped : Machine.step program state = .next events next) :
      Arrives program store (past ++ events) next

theorem arrivesRecord {program : Program} {store : Store} {past : List Event} {state : State}
    (arrives : Arrives program store past state) : ∃ steps, ∀ limit,
      program.trace (steps + limit) store = Machine.record program limit state past.reverse := by
  induction arrives with
  | start => exact ⟨0, fun limit => by rw [Nat.zero_add]; rfl⟩
  | @next past state events next before stepped ih =>
    obtain ⟨steps, same⟩ := ih
    refine ⟨steps + 1, fun limit => ?_⟩
    rw [Nat.add_right_comm, Nat.add_assoc, same, Machine.record, stepped, List.reverse_append]

theorem arrivesTraces {program : Program} {store : Store} {past events : List Event}
    {state : State} {outcome : Outcome} (arrives : Arrives program store past state)
    (halted : Machine.step program state = .halt events outcome) :
    program.Traces store (past ++ events) outcome := by
  obtain ⟨steps, same⟩ := arrivesRecord arrives
  refine ⟨steps + 1, ?_⟩
  rw [same, Machine.record, halted]
  simp only [List.reverse_append, List.reverse_reverse]

theorem arrivesEnds {program : Program} {store : Store} {past : List Event} {state : State}
    (arrives : Arrives program store past state) (outcome : Outcome) :
    program.Finishes store outcome ↔ Machine.Ends program state outcome := by
  induction arrives with
  | start => exact finishesEnds
  | next before stepped ih => rw [ih, Machine.endsMoves (Machine.movesStep stepped)]

theorem finishesTraces {program : Program} {store outcome} :
    program.Finishes store outcome ↔ ∃ events, program.Traces store events outcome := by
  apply Iff.intro
  · intro ⟨limit, h⟩
    rw [← traceOutcome, Option.map_eq_some_iff] at h
    obtain ⟨⟨events, last⟩, traced, rfl⟩ := h
    exact ⟨events, limit, traced⟩
  · intro ⟨events, limit, h⟩
    exact ⟨limit, by rw [← traceOutcome, h]; rfl⟩

end Program
end CounterLang
