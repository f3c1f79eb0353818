import CounterLang.Proofs.Composition
import CounterLang.Proofs.Refinement

/-! What a run did to its store, read off its events. The actions among the
dispatched statements do the same once more when they are put one behind the
other, without any loop. A fault belongs to the statement dispatched last and
leaves the store as the actions before it made it. -/
namespace CounterLang
open Nesting

def Statement.acts (statement : Statement) : Bool :=
  match statement.instruction with
  | .act _ _ => true
  | _ => false

def Event.dispatched? : Event → Option (Nat × Statement)
  | .dispatch index statement => some (index, statement)
  | .enter _ => none
  | .leave _ => none

def dispatches (events : List Event) : List (Nat × Statement) :=
  events.filterMap Event.dispatched?

def straightLine (dispatched : List (Nat × Statement)) : List Statement :=
  (dispatched.map Prod.snd).filter Statement.acts

inductive Acts : Store → List Statement → Store → Prop where
  | nothing {store} : Acts store [] store
  | more {statement action name rest store next last}
      (form : statement.instruction = .act action name)
      (done : statement.act action name store = .ok next)
      (later : Acts next rest last) : Acts store (statement :: rest) last

section Acts

variable {store middle last : Store} {statements front back : List Statement}

theorem actsAppend (left : Acts store front middle) (right : Acts middle back last) :
    Acts store (front ++ back) last := by
  induction left with
  | nothing => exact right
  | more form done later ih => exact .more form done (ih right)

end Acts

def line : List Statement → Block
  | [] => .done
  | statement :: rest => .simple statement (line rest)

section Line

variable {statements : List Statement} {store last : Store} {report : Report}

theorem lineFlatten : (line statements).flatten = statements := by
  induction statements with
  | nil => rfl
  | cons statement rest ih => exact congrArg (statement :: ·) ih

theorem lineSound (simple : ∀ statement ∈ statements,
    statement.opens = false ∧ statement.closes = false) : (line statements).Sound := by
  induction statements with
  | nil => trivial
  | cons statement rest ih =>
    obtain ⟨opens, closes⟩ := simple statement List.mem_cons_self
    exact ⟨opens, closes, ih fun other found => simple other (List.mem_cons_of_mem _ found)⟩

theorem lineThrough : Evaluates (.block (line statements)) store (.through last report) ↔
    Acts store statements last ∧ report = .ofCounts statements.length 0 := by
  apply Iff.intro
  · intro h
    induction statements generalizing store report with
    | nil =>
      cases h
      exact ⟨.nothing, rfl⟩
    | cons statement rest ih =>
      generalize reached : Progress.through last report = progress at h
      cases h with
      | act form acted later =>
        obtain ⟨more, rfl, rfl⟩ := Progress.throughAfter.mp reached
        obtain ⟨acts, rfl⟩ := ih later
        refine ⟨.more form acted acts, ?_⟩
        rw [List.length_cons, Nat.add_comm]
        exact countsSum 1 0 rest.length 0
      | refuse refused => contradiction
  · rintro ⟨acts, rfl⟩
    induction acts with
    | nothing => exact .done
    | @more statement action name rest store next last form done later ih =>
      rw [List.length_cons, Nat.add_comm, ← countsSum 1 0 rest.length 0]
      exact .act form done ih

end Line

theorem actsSimple {store last : Store} {statements : List Statement}
    (acts : Acts store statements last) :
    ∀ statement ∈ statements, statement.opens = false ∧ statement.closes = false := by
  induction acts with
  | nothing => simp
  | more form done later ih =>
    intro statement member
    rcases List.mem_cons.mp member with rfl | member
    · exact Machine.actSimple form
    · exact ih statement member

theorem actsEvaluate {store last : Store} {statements : List Statement}
    (acts : Acts store statements last) :
    ∃ block, Splits statements block [] ∧
      Evaluates (.block block) store (.through last (.ofCounts statements.length 0)) := by
  have sound := lineSound (actsSimple acts)
  have flat : (line statements).flatten ++ [] = statements := by rw [List.append_nil, lineFlatten]
  exact ⟨line statements, ⟨sound, flat, trivial⟩, lineThrough.mpr ⟨acts, rfl⟩⟩

def Program.Runs (program : Program) (store last : Store) : Prop :=
  program.Finishes store ⟨last, .done (.ofCounts program.size 0)⟩

theorem actsRun {store last : Store} {statements : List Statement}
    (acts : Acts store statements last) : Program.Runs statements.toArray store last := by
  obtain ⟨block, splits, inner⟩ := actsEvaluate acts
  exact (Program.finishesConcludes splits _ _).mpr (.done inner)

theorem dispatchesAppend (past events : List Event) :
    dispatches (past ++ events) = dispatches past ++ dispatches events :=
  List.filterMap_append

theorem straightLineAppend (front back : List (Nat × Statement)) :
    straightLine (front ++ back) = straightLine front ++ straightLine back := by
  rw [straightLine, List.map_append, List.filter_append]
  rfl

namespace Machine

theorem movesAct {program state events next} (moves : Moves program state events next) :
    Acts state.store (straightLine (dispatches events)) next.store := by
  cases moves with
  | @act cursor loops store report statement action name next found form done =>
    have line : straightLine (dispatches [.dispatch cursor statement]) = [statement] := by
      simp [straightLine, dispatches, Event.dispatched?, Statement.acts, form]
    rw [line]
    exact .more form done .nothing
  | @enter cursor loops store report statement control target reach length found form opened
      closed =>
    have line : ∀ loop, straightLine (dispatches [.dispatch cursor statement, .enter loop]) = [] := by
      simp [straightLine, dispatches, Event.dispatched?, Statement.acts, form]
    rw [line]
    exact .nothing
  | again ended read => exact .nothing
  | leave equal => exact .nothing
  | pass differs => exact .nothing

theorem refusesGlobal {program cursor loops store report statement cause}
    (sound : Sound program (.walk cursor loops store report))
    (found : current? program loops cursor = some statement)
    (refused : statement.raises (bodyLength? program loops cursor).isSome store = some cause) :
    statement.raises (closing? (program.toList.drop (cursor + 1))).isSome store = some cause := by
  cases opens : statement.opens with
  | true =>
    rw [← bodyGlobal sound found opens]
    exact refused
  | false => exact raisesSimple opens _ _ store ▸ refused

end Machine

namespace Program
open Machine

inductive Replayed (program : Program) (store : Store) :
    List (Nat × Statement) → Outcome → Prop where
  | done {dispatched last report} (runs : Runs (straightLine dispatched).toArray store last) :
      Replayed program store dispatched ⟨last, .done report⟩
  | failed {earlier position statement last cause}
      (runs : Runs (straightLine earlier).toArray store last)
      (found : program[position]? = some statement)
      (raised : statement.raises (closing? (program.toList.drop (position + 1))).isSome last =
        some cause) :
      Replayed program store (earlier ++ [(position, statement)])
        ⟨last, .failed (statement.fault cause)⟩

theorem runsReplay {program : Program} {store : Store} {events : List Event} {outcome : Outcome}
    (traced : program.Traces store events outcome) :
    Replayed program store (dispatches events) outcome := by
  refine tracesKeep (fun past state => Acts store (straightLine (dispatches past)) state.store)
    (fun events outcome => Replayed program store (dispatches events) outcome) ?_ ?_ traced .nothing
  · intro past state events next _ acts moves
    have both := actsAppend acts (movesAct moves)
    rw [← straightLineAppend, ← dispatchesAppend] at both
    exact both
  · intro past state events outcome sound acts halts
    cases halts with
    | finish ended =>
      rw [List.append_nil]
      exact .done (actsRun acts)
    | @refuse cursor loops store report statement cause found refused =>
      rw [dispatchesAppend]
      have raised := refusesGlobal sound found refused
      exact .failed (actsRun acts) (currentSome.mp found).2 raised
    | lost ended unread => exact absurd unread (neverLost sound)

def countdown : Program :=
  #[⟨"clear x", "clear x; incr x;", 1, .act .clear "x"⟩,
    ⟨"incr x", "clear x; incr x;", 1, .act .incr "x"⟩,
    ⟨"while x not 0 do", "while x not 0 do;", 2, .loop "x" (.literal 0)⟩,
    ⟨"decr x", "decr x;", 3, .act .decr "x"⟩,
    ⟨"end", "end;", 4, .close⟩,
    ⟨"decr x", "decr x;", 5, .act .decr "x"⟩]

theorem countdownReplays : ∃ events, countdown.Traces .empty events
      ⟨.single "x" 0, .failed ⟨5, "decr x;", .belowZero "x" "decr x"⟩⟩ ∧
    Replayed countdown .empty (dispatches events)
      ⟨.single "x" 0, .failed ⟨5, "decr x;", .belowZero "x" "decr x"⟩⟩ := by
  have finishes : countdown.Finishes .empty
      ⟨.single "x" 0, .failed ⟨5, "decr x;", .belowZero "x" "decr x"⟩⟩ := ⟨8, by decide⟩
  obtain ⟨events, traced⟩ := finishesTraces.mp finishes
  exact ⟨events, traced, runsReplay traced⟩

end Program
end CounterLang
