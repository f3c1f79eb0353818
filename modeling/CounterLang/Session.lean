import CounterLang.Machine

/-! Running program text, and sessions. Text that cannot be read leaves the store as it was and
logs nothing; otherwise the log opens with the number of statements read and the start of the
run. A session keeps one store through many commands and a saved copy of it, and what happens
to one does not reach the other. -/
namespace CounterLang

namespace Execution

inductive Level where
  | debug
  | trace
  deriving DecidableEq, Repr

inductive LogEntry where
  | segmented (statements : Nat)
  | started (statements : Nat)
  | happened (event : Event)
  deriving DecidableEq, Repr

def LogEntry.level : LogEntry → Level
  | .happened (.dispatch _ _) => .trace
  | _ => .debug

def onStore (limit : Nat) (source : String) (store : Store) : Option Outcome :=
  match Source.read source with
  | .ok program => program.run limit store
  | .error fault => some ⟨store, .failed fault⟩

def logged (limit : Nat) (source : String) (store : Store) : Option (List LogEntry × Outcome) :=
  match Source.read source with
  | .ok program =>
    (program.trace limit store).map fun (events, outcome) =>
      (.segmented program.size :: .started program.size :: events.map .happened, outcome)
  | .error fault => some ([], ⟨store, .failed fault⟩)

def fresh (limit : Nat) (source : String) : Option (Except Fault (Store × Report)) :=
  (onStore limit source .empty).map fun outcome =>
    match outcome.ending with
    | .done report => .ok (outcome.store, report)
    | .failed fault => .error fault

theorem loggedOutcome (limit : Nat) (source : String) (store : Store) :
    (logged limit source store).map Prod.snd = onStore limit source store := by
  unfold logged onStore
  split
  · rw [← Program.traceOutcome, Option.map_map]
    rfl
  · rfl

end Execution

structure Session where
  current : Store
  saved : Store
  deriving DecidableEq

inductive Command where
  | execute (source : String)
  | act (action : Action) (name : String)
  | get (name : String)
  | contains (name : String)
  | size
  | isEmpty
  | sorted
  | bindings
  | display
  | save
  | restore
  | equalsSaved
  deriving DecidableEq, Repr

inductive Answer where
  | silent
  | ended (ending : Ending)
  | updated (value : UInt64)
  | refused (refusal : Refusal)
  | value (value : Option UInt64)
  | truth (holds : Bool)
  | count (size : Nat)
  | entries (slots : List (String × UInt64))
  | bindings (slots : List (String × UInt64))
  | text (text : String)
  deriving DecidableEq, Repr

namespace Session

def start (store : Store) : Session := ⟨store, .empty⟩

def updated (action : Action) (value : UInt64) : Answer :=
  match action with
  | .clear => .silent
  | .incr | .decr => .updated value

def act (session : Session) (action : Action) (name : String) : Answer × Session :=
  match action.result (session.current.get? name) with
  | .ok value => (updated action value, { session with current := session.current.put name value })
  | .error refusal => (.refused refusal, session)

def perform (limit : Nat) (session : Session) : Command → Option (Answer × Session)
  | .execute source =>
    (Execution.onStore limit source session.current).map fun outcome =>
      (.ended outcome.ending, { session with current := outcome.store })
  | .act action name => some (session.act action name)
  | .get name => some (.value (session.current.get? name), session)
  | .contains name => some (.truth (session.current.contains name), session)
  | .size => some (.count session.current.size, session)
  | .isEmpty => some (.truth session.current.isEmpty, session)
  | .sorted => some (.entries session.current.sorted, session)
  | .bindings => some (.bindings session.current.toList, session)
  | .display => some (.text session.current.display, session)
  | .save => some (.silent, { session with saved := session.current })
  | .restore => some (.silent, { session with current := session.saved })
  | .equalsSaved => some (.truth (session.current = session.saved), session)

end Session

end CounterLang
