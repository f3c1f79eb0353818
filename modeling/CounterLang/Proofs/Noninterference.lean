import CounterLang.Proofs.Lockstep

/-! Counters that a program does not mention. They have no influence on a run, and only
counters that an action names are changed by one. Stores that tell the same of the
mentioned counters may differ in all others and in their order. -/
namespace CounterLang

def Agree (names : List String) (first second : Store) : Prop :=
  ∀ name ∈ names, first.get? name = second.get? name

instance (names : List String) (first second : Store) : Decidable (Agree names first second) :=
  inferInstanceAs (Decidable (∀ name ∈ names, first.get? name = second.get? name))

/- Two stores on the way from two others: they agree, and the same names have come to
each. -/
structure Parallel (names : List String) (first second left right : Store) : Prop where
  agree : Agree names left right
  created : ∃ created, left.names = first.names ++ created ∧ right.names = second.names ++ created

theorem agreeSymm {names : List String} {first second : Store} (agree : Agree names first second) :
    Agree names second first := fun name member => (agree name member).symm

theorem agreeNames {names : List String} {first second : Store}
    (agree : Agree names first second) {name : String} (member : name ∈ names) :
    name ∈ first.names ↔ name ∈ second.names := by
  rw [← Store.getSome, ← Store.getSome, agree name member]

theorem agreePut {names : List String} {first second : Store} (agree : Agree names first second)
    (name : String) (value : UInt64) :
    Agree names (first.put name value) (second.put name value) := by
  intro other member
  rw [Store.getPut, Store.getPut, agree other member]

theorem parallelPut {names : List String} {first second left right : Store}
    (parallel : Parallel names first second left right) {name : String} (member : name ∈ names)
    (value : UInt64) :
    Parallel names first second (left.put name value) (right.put name value) := by
  obtain ⟨agree, created, before, after⟩ := parallel
  refine ⟨agreePut agree name value, ?_⟩
  rw [Store.namesPut, Store.namesPut]
  by_cases there : name ∈ left.names
  · rw [if_pos there, if_pos ((agreeNames agree member).mp there)]
    exact ⟨created, before, after⟩
  · rw [if_neg there, if_neg (mt (agreeNames agree member).mpr there), before, after]
    exact ⟨created ++ [name], List.append_assoc _ _ _, List.append_assoc _ _ _⟩

def Program.likeness (program : Program) (first second : Store) : Likeness where
  statements left right :=
    left = right ∧ ∀ name ∈ left.instruction.mentions, name ∈ program.names Instruction.mentions
  stores := Parallel (program.names Instruction.mentions) first second
  causes := (· = ·)

theorem Machine.movesUntouched {program state events next} {name : String}
    (moves : Moves program state events next) (never : name ∉ program.names Instruction.changes) :
    next.store.get? name = state.store.get? name := by
  cases moves with
  | @act cursor loops store report statement action other next found form done =>
    have changed : other ∈ program.names Instruction.changes := by
      refine namesMem (currentSome.mp found).2 ?_
      rw [form]
      exact List.mem_cons_self
    have apart : name ≠ other := by
      rintro rfl
      exact never changed
    exact actOthers done apart
  | enter found form opened closed => rfl
  | again ended read => rfl
  | leave equal => rfl
  | pass differs => rfl

namespace Program
open Machine

variable {program : Program} {first second : Store}

theorem likenessKept (program : Program) (first second : Store) :
    (program.likeness first second).Kept := by
  refine Likeness.keptReading (· ∈ program.names Instruction.mentions) ?_ ?_ ?_ ?_
  · rintro left right ⟨rfl, mentions⟩
    exact ⟨rfl, rfl, mentions⟩
  · intro left right name parallel member
    exact parallel.agree name member
  · intro left right name value parallel member
    exact parallelPut parallel member value
  · exact fun _ => rfl

theorem likenessSelf (program : Program) (first second : Store) :
    (program.likeness first second).Programs (fun _ => True) program program where
  brackets := rfl
  alike {_ left} _ found := ⟨left, found, rfl, fun _ member => namesMem found member⟩

structure Indistinct (program : Program) (first second : Store) (left right : Outcome) : Prop where
  ending : left.ending = right.ending
  stores : Parallel (program.names Instruction.mentions) first second left.store right.store

def Untouched (program : Program) (store last : Store) : Prop :=
  ∀ name, name ∉ program.names Instruction.changes → last.get? name = store.get? name

theorem finishesBeside (agree : Agree (program.names Instruction.mentions) first second)
    {left : Outcome} (finishes : program.Finishes first left) :
    ∃ right, program.Finishes second right ∧ Indistinct program first second left right := by
  have start : (program.likeness first second).stores first second :=
    ⟨agree, [], (List.append_nil _).symm, (List.append_nil _).symm⟩
  obtain ⟨events, traced⟩ := finishesTraces.mp finishes
  obtain ⟨told, right, other, _, outcomes⟩ :=
    Likeness.tracesAlike (likenessKept program first second) (likenessSelf program first second)
      start traced fun _ _ => trivial
  refine ⟨right, finishesTraces.mpr ⟨told, other⟩, ?_⟩
  cases outcomes with
  | done stores => exact ⟨rfl, stores⟩
  | failed place here there alike causes stores =>
    obtain ⟨rfl, _⟩ := alike
    obtain rfl : _ = _ := causes
    exact ⟨rfl, stores⟩

theorem finishesUntouched {store : Store} {outcome : Outcome}
    (finishes : program.Finishes store outcome) : Untouched program store outcome.store := by
  intro name never
  obtain ⟨events, traced⟩ := finishesTraces.mp finishes
  refine tracesKeep (fun _ state => state.store.get? name = store.get? name)
    (fun _ outcome => outcome.store.get? name = store.get? name) ?_ ?_ traced rfl
  · intro past state events next _ now moves
    exact (movesUntouched moves never).trans now
  · intro past state events outcome sound now halts
    cases halts with
    | finish ended => exact now
    | refuse found refused => exact now
    | lost ended unread => exact absurd unread (neverLost sound)

theorem unmentionedUnseen (agree : Agree (program.names Instruction.mentions) first second) :
    ((∃ left, program.Finishes first left) ↔ ∃ right, program.Finishes second right) ∧
    ∀ left right, program.Finishes first left → program.Finishes second right →
      Indistinct program first second left right ∧
        Untouched program first left.store ∧ Untouched program second right.store := by
  refine ⟨⟨?_, ?_⟩, fun left right here there => ⟨?_, ?_, ?_⟩⟩
  · intro ⟨left, finishes⟩
    obtain ⟨right, other, _⟩ := finishesBeside agree finishes
    exact ⟨right, other⟩
  · intro ⟨right, finishes⟩
    obtain ⟨left, other, _⟩ := finishesBeside (agreeSymm agree) finishes
    exact ⟨left, other⟩
  · obtain ⟨other, finishes, indistinct⟩ := finishesBeside agree here
    exact finishesOnce finishes there ▸ indistinct
  · exact finishesUntouched here
  · exact finishesUntouched there

def remake : Program :=
  #[⟨"while x not 2 do", "while x not 2 do;", 1, .loop "x" (.literal 2)⟩,
    ⟨"clear y", "clear y;", 2, .act .clear "y"⟩,
    ⟨"incr x", "incr x;", 3, .act .incr "x"⟩,
    ⟨"end", "end;", 4, .close⟩,
    ⟨"decr y", "decr y;", 5, .act .decr "y"⟩]

theorem remakeUnseen :
    let first : Store := ⟨[("z", 7), ("x", 0)], by decide⟩
    let second : Store := ⟨[("x", 0), ("a", 1), ("z", 3)], by decide⟩
    let fault : Fault := ⟨5, "decr y;", .belowZero "y" "decr y"⟩
    let left : Outcome := ⟨⟨[("z", 7), ("x", 2), ("y", 0)], by decide⟩, .failed fault⟩
    let right : Outcome := ⟨⟨[("x", 2), ("a", 1), ("z", 3), ("y", 0)], by decide⟩, .failed fault⟩
    Agree (remake.names Instruction.mentions) first second ∧ remake.Finishes first left ∧
      remake.Finishes second right ∧ Indistinct remake first second left right ∧
      Untouched remake first left.store ∧ Untouched remake second right.store := by
  intro first second fault left right
  have agree : Agree (remake.names Instruction.mentions) first second := by decide
  have here : remake.Finishes first left := ⟨20, by decide⟩
  have there : remake.Finishes second right := ⟨20, by decide⟩
  exact ⟨agree, here, there, (unmentionedUnseen agree).2 left right here there⟩

end Program
end CounterLang
