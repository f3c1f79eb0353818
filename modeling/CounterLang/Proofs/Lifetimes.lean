import Mathlib.Data.List.Basic
import CounterLang.Proofs.Replay
import CounterLang.Proofs.Updates

/-! How long counters live. A clear that is dispatched makes its counter if it is not
there, behind all others, and nothing else makes one or takes one away. So a counter
is missing only where none of its clears has been dispatched. -/
namespace CounterLang

def Statement.clears? (statement : Statement) : Option String :=
  match statement.instruction with
  | .act .clear name => some name
  | _ => none

def clears (events : List Event) : List String :=
  (dispatches events).filterMap fun entry => entry.2.clears?

structure FirstClears (known cleared created : List String) : Prop where
  distinct : created.Nodup
  members : ∀ name, name ∈ created ↔ name ∉ known ∧ name ∈ cleared
  order : created.Pairwise fun earlier later => cleared.idxOf earlier < cleared.idxOf later

theorem clearsAppend (past events : List Event) :
    clears (past ++ events) = clears past ++ clears events := by
  rw [clears, dispatchesAppend, List.filterMap_append]
  rfl

section FirstClears

variable {known cleared created : List String} {name : String}

theorem orderAppend (first : FirstClears known cleared created) (more : List String) :
    created.Pairwise fun earlier later =>
      (cleared ++ more).idxOf earlier < (cleared ++ more).idxOf later := by
  refine first.order.imp_of_mem ?_
  intro earlier later left right order
  rw [List.idxOf_append_of_mem ((first.members earlier).mp left).2,
    List.idxOf_append_of_mem ((first.members later).mp right).2]
  exact order

theorem firstClearsAgain (first : FirstClears known cleared created)
    (there : name ∈ known ++ created) : FirstClears known (cleared ++ [name]) created where
  distinct := first.distinct
  order := orderAppend first [name]
  members other := by
    rw [first.members, List.mem_append, List.mem_singleton]
    apply Iff.intro
    · exact fun ⟨unknown, member⟩ => ⟨unknown, .inl member⟩
    · rintro ⟨unknown, member | rfl⟩
      · exact ⟨unknown, member⟩
      · have made := (List.mem_append.mp there).resolve_left unknown
        exact (first.members other).mp made

theorem firstClearsNew (first : FirstClears known cleared created)
    (absent : name ∉ known ++ created) :
    FirstClears known (cleared ++ [name]) (created ++ [name]) := by
  obtain ⟨unknown, unmade⟩ := not_or.mp (mt List.mem_append.mpr absent)
  have fresh : name ∉ cleared :=
    fun member => unmade ((first.members name).mpr ⟨unknown, member⟩)
  refine ⟨List.nodup_append.mpr ⟨first.distinct, List.pairwise_singleton _ _, ?_⟩, ?_,
    List.pairwise_append.mpr ⟨orderAppend first [name], List.pairwise_singleton _ _, ?_⟩⟩
  · intro earlier left later right same
    rw [List.mem_singleton.mp right] at same
    exact unmade (same ▸ left)
  · intro other
    rw [List.mem_append, List.mem_append, first.members, List.mem_singleton]
    by_cases same : other = name
    · simp [same, unknown]
    · simp [same]
  · intro earlier left later right
    have before := ((first.members earlier).mp left).2
    rw [List.mem_singleton.mp right, List.idxOf_append_of_mem before,
      List.idxOf_append_of_notMem fresh]
    exact Nat.lt_add_right _ (List.idxOf_lt_length_of_mem before)

end FirstClears

namespace Machine

theorem clearsDispatch (cursor : Nat) (statement : Statement) :
    clears [.dispatch cursor statement] = statement.clears?.toList := by
  cases cleared : statement.clears? <;> simp [clears, dispatches, Event.dispatched?, cleared]

theorem movesCreate {program state events next} {known cleared created : List String}
    (moves : Moves program state events next) (now : state.store.names = known ++ created)
    (first : FirstClears known cleared created) : ∃ more,
      next.store.names = known ++ more ∧ FirstClears known (cleared ++ clears events) more := by
  cases moves with
  | @act cursor loops store report statement action name next found form done =>
    dsimp only [State.store] at now ⊢
    rw [clearsDispatch, Statement.clears?, form]
    rw [actForms] at done
    split at done <;> cases done
    rename_i value result
    rw [Store.namesPut, now]
    split
    · -- Whatever the action is, the names are those of before.
      rename_i there
      cases action with
      | clear => exact ⟨created, rfl, firstClearsAgain first there⟩
      | incr => exact ⟨created, rfl, (List.append_nil cleared).symm ▸ first⟩
      | decr => exact ⟨created, rfl, (List.append_nil cleared).symm ▸ first⟩
    · rename_i absent
      have missing : store.get? name = none := Store.getNone.mpr (now ▸ absent)
      rw [missing] at result
      cases action with
      | clear => exact ⟨_, List.append_assoc _ _ _, firstClearsNew first absent⟩
      | incr => contradiction
      | decr => contradiction
  | @enter cursor loops store report statement control target reach length found form opened
      closed =>
    have nothing : clears [.dispatch cursor statement,
        .enter ⟨cursor, statement, cursor + 1 + length, control, target, reach, 0⟩] = [] := by
      simp [clears, dispatches, Event.dispatched?, Statement.clears?, form]
    rw [nothing, List.append_nil]
    exact ⟨created, now, first⟩
  | again ended read => exact ⟨created, now, (List.append_nil cleared).symm ▸ first⟩
  | leave equal => exact ⟨created, now, (List.append_nil cleared).symm ▸ first⟩
  | pass differs => exact ⟨created, now, (List.append_nil cleared).symm ▸ first⟩

theorem refusedClears {statement : Statement} {closed : Bool} {store : Store} {cause : Cause}
    (refused : statement.raises closed store = some cause) (cursor : Nat) :
    clears [.dispatch cursor statement] = [] := by
  rw [clearsDispatch, Statement.clears?]
  split
  · rename_i name form
    simp [Statement.raises, form, actForms, clearDone] at refused
  · rfl

end Machine

namespace Program
open Machine

structure Lives (program : Program) (store : Store) (events : List Event) (outcome : Outcome) :
    Prop where
  created : ∃ created, outcome.store.names = store.names ++ created ∧
    FirstClears store.names (clears events) created
  missing : ∀ fault name, outcome.ending = .failed fault →
    fault.cause = .undefinedVariable name →
    outcome.store.get? name = none ∧ name ∉ clears events
  provided : (∀ name ∈ program.names Instruction.needs, name ∈ store.names) →
    ∀ fault name, outcome.ending = .failed fault → fault.cause ≠ .undefinedVariable name

theorem tracesCreate {program : Program} {store : Store} {events : List Event} {outcome : Outcome}
    (traced : program.Traces store events outcome) : ∃ created,
      outcome.store.names = store.names ++ created ∧
        FirstClears store.names (clears events) created := by
  refine tracesKeep
    (fun past state => ∃ created, state.store.names = store.names ++ created ∧
      FirstClears store.names (clears past) created)
    (fun events outcome => ∃ created, outcome.store.names = store.names ++ created ∧
      FirstClears store.names (clears events) created) ?_ ?_ traced ?_
  · intro past state events next _ ⟨created, now, first⟩ moves
    rw [clearsAppend]
    exact movesCreate moves now first
  · intro past state events outcome sound ⟨created, now, first⟩ halts
    cases halts with
    | finish ended => exact ⟨created, now, (List.append_nil past).symm ▸ first⟩
    | refuse found refused =>
      rw [clearsAppend, refusedClears refused, List.append_nil]
      exact ⟨created, now, first⟩
    | lost ended unread => exact absurd unread (neverLost sound)
  · exact ⟨[], (List.append_nil _).symm, List.nodup_nil, by simp [clears, dispatches], .nil⟩

theorem tracesMissing {program : Program} {store : Store} {events : List Event} {outcome : Outcome}
    (traced : program.Traces store events outcome) {fault : Fault} {name : String}
    (failed : outcome.ending = .failed fault) (cause : fault.cause = .undefinedVariable name) :
    name ∈ program.names Instruction.needs ∧ outcome.store.get? name = none := by
  refine tracesKeep (fun _ _ => True) (fun _ outcome => outcome.ending = .failed fault →
    name ∈ program.names Instruction.needs ∧ outcome.store.get? name = none)
    (fun _ _ _ => trivial) ?_ traced trivial failed
  intro past state events outcome sound _ halts failed
  cases halts with
  | finish ended => cases failed
  | refuse found refused =>
    cases failed
    obtain rfl : _ = Cause.undefinedVariable name := cause
    obtain ⟨needed, missing⟩ := raisesUndefined refused
    exact ⟨namesMem (currentSome.mp found).2 needed, missing⟩
  | lost ended unread => exact absurd unread (neverLost sound)

theorem countersLive (program : Program) (store : Store) :
    (∀ past cursor loop outer now report,
      program.Arrives store past (.walk cursor (loop :: outer) now report) →
      ∃ reach, loop.target.value now = .ok reach) ∧
    ∀ events outcome, program.Traces store events outcome →
      Lives program store events outcome := by
  refine ⟨?_, fun events outcome traced => ?_⟩
  · intro past cursor loop outer now report arrives
    cases read : loop.target.value now with
    | ok reach => exact ⟨reach, rfl⟩
    | error cause => exact absurd read (neverLost (arrivesSound arrives))
  · obtain ⟨created, names, first⟩ := tracesCreate traced
    refine ⟨⟨created, names, first⟩, ?_, ?_⟩
    · intro fault name failed cause
      have missing := (tracesMissing traced failed cause).2
      refine ⟨missing, fun cleared => ?_⟩
      have absent := Store.getNone.mp missing
      rw [names, List.mem_append, not_or] at absent
      exact absent.2 ((first.members name).mpr ⟨absent.1, cleared⟩)
    · intro provided fault name failed cause
      obtain ⟨needed, missing⟩ := tracesMissing traced failed cause
      have absent := Store.getNone.mp missing
      rw [names, List.mem_append, not_or] at absent
      exact absent.1 (provided name needed)

def astray : Program :=
  #[⟨"while x not y do", "while x not y do;", 1, .loop "x" (.named "y")⟩,
    ⟨"clear z", "clear z;", 2, .act .clear "z"⟩,
    ⟨"incr x", "incr x;", 3, .act .incr "x"⟩,
    ⟨"end", "end;", 4, .close⟩,
    ⟨"decr w", "decr w;", 5, .act .decr "w"⟩]

theorem astrayLives :
    let store : Store := ⟨[("x", 0), ("y", 2)], by decide⟩
    let loop : Loop := ⟨0, ⟨"while x not y do", "while x not y do;", 1, .loop "x" (.named "y")⟩, 3,
      "x", .named "y", 2, 0⟩
    let last : Outcome := ⟨⟨[("x", 2), ("y", 2), ("z", 0)], by decide⟩,
      .failed ⟨5, "decr w;", .undefinedVariable "w"⟩⟩
    (∃ past, astray.Arrives store past (.walk 1 [loop] store ⟨1, 0⟩) ∧
      ∃ reach, loop.target.value store = .ok reach) ∧
    ∃ events, astray.Traces store events last ∧ Lives astray store events last := by
  intro store loop last
  have head : ∃ events, step astray (start store) = .next events (.check loop [] store ⟨1, 0⟩) :=
    ⟨_, rfl⟩
  have pass : step astray (.check loop [] store ⟨1, 0⟩) =
      .next [] (.walk 1 [loop] store ⟨1, 0⟩) := by decide
  obtain ⟨events, head⟩ := head
  have arrives := Arrives.next (.next .start head) pass
  obtain ⟨told, traced⟩ := finishesTraces.mp (⟨20, by decide⟩ : astray.Finishes store last)
  have live := countersLive astray store
  exact ⟨⟨_, arrives, live.1 _ _ _ _ _ _ arrives⟩, told, traced, live.2 told last traced⟩

end Program
end CounterLang
