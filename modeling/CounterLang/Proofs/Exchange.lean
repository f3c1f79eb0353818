import CounterLang.Proofs.Composition
import CounterLang.Proofs.Refinement
import CounterLang.Proofs.Updates

/-! Actions on different counters in either order. The counters come out the same and only
their slots may stand in another order, which no later statement can tell. So two such
neighbours may be exchanged wherever they stand, also in loops that run them many times. -/
namespace CounterLang

def Store.Same (first second : Store) : Prop := ∀ name, first.get? name = second.get? name

section Actions

variable {first second : Statement} {deed action : Action} {name label : String}
  {store other next : Store}

theorem actDone : first.act deed name store = .ok next ↔
    ∃ value, deed.result (store.get? name) = .ok value ∧ next = store.put name value := by
  rw [actForms]
  cases deed.result (store.get? name) with
  | error refusal => simp
  | ok value => simp [eq_comm]

theorem samePut (same : store.Same other) (value : UInt64) :
    (store.put name value).Same (other.put name value) := by
  intro known
  rw [Store.getPut, Store.getPut, same known]

theorem sameAct (same : store.Same other) (acted : first.act deed name store = .ok next) :
    ∃ later, first.act deed name other = .ok later ∧ next.Same later := by
  obtain ⟨value, result, rfl⟩ := actDone.mp acted
  rw [same name] at result
  exact ⟨_, actDone.mpr ⟨value, result, rfl⟩, samePut same value⟩

theorem sameHeader (same : store.Same other) (control : String) (target : Operand) :
    store.header control target = other.header control target :=
  headerAlike fun known _ => same known

theorem putPut (apart : name ≠ label) (same : store.Same other) (value amount : UInt64) :
    ((store.put name value).put label amount).Same ((other.put label amount).put name value) := by
  intro known
  simp only [Store.getPut, same known]
  by_cases here : known = name
  · rw [if_pos here, if_neg (here ▸ apart), if_pos here]
  · rw [if_neg here, if_neg here]

theorem actAct (apart : name ≠ label) (same : store.Same other) {last : Store}
    (acted : first.act deed name store = .ok next)
    (later : second.act action label next = .ok last) : ∃ middle final,
      second.act action label other = .ok middle ∧ first.act deed name middle = .ok final ∧
        last.Same final := by
  obtain ⟨value, result, rfl⟩ := actDone.mp acted
  obtain ⟨amount, outcome, rfl⟩ := actDone.mp later
  rw [Store.getPut, if_neg apart.symm, same label] at outcome
  rw [same name] at result
  refine ⟨_, _, actDone.mpr ⟨amount, outcome, rfl⟩, actDone.mpr ⟨value, ?_, rfl⟩,
    putPut apart same value amount⟩
  rw [Store.getPut, if_neg apart, result]

end Actions

/- What the first comes through on one store, the second comes through on every store with
the same counters, with the same counts and the same counters at the end. -/
def Task.Mirrors (first second : Task) : Prop :=
  ∀ ⦃store other last report⦄, store.Same other → Evaluates first store (.through last report) →
    ∃ final, Evaluates second other (.through final report) ∧ last.Same final

theorem pairPlaced {left right close : Statement} {front before after rest : List Statement}
    (notLeft : close ≠ left) (notRight : close ≠ right)
    (whole : front ++ close :: rest = before ++ left :: right :: after) :
    (∃ middle, before = front ++ close :: middle ∧ rest = middle ++ left :: right :: after) ∨
      ∃ middle, front = before ++ left :: right :: middle ∧ after = middle ++ close :: rest := by
  rcases List.append_eq_append_iff.mp whole with ⟨middle, ahead, tail⟩ | ⟨middle, ahead, tail⟩
  · cases middle with
    | nil => exact absurd (List.cons.inj tail).1 notLeft
    | cons first middle =>
      obtain ⟨rfl, later⟩ := List.cons.inj tail
      exact .inl ⟨middle, ahead, later⟩
  · rcases middle with _ | ⟨one, _ | ⟨two, middle⟩⟩
    · exact absurd (List.cons.inj tail).1.symm notLeft
    · obtain ⟨rfl, later⟩ := List.cons.inj tail
      exact absurd (List.cons.inj later).1.symm notRight
    · obtain ⟨rfl, later⟩ := List.cons.inj tail
      obtain ⟨rfl, last⟩ := List.cons.inj later
      exact .inr ⟨middle, ahead, last⟩

namespace Block

abbrev Mirrors (first second : Block) : Prop := Task.Mirrors (.block first) (.block second)

variable {first second front behind : Block}

theorem mirrorsDone : Mirrors .done .done := by
  intro store other last report same h
  cases h
  exact ⟨other, .done, same⟩

theorem mirrorsSimple (statement : Statement) (after : front.Mirrors behind) :
    Mirrors (simple statement front) (simple statement behind) := by
  intro store other last report same h
  generalize reached : Progress.through last report = progress at h
  cases h with
  | act form acted later =>
    obtain ⟨more, rfl, rfl⟩ := Progress.throughAfter.mp reached
    obtain ⟨next, done, same⟩ := sameAct same acted
    obtain ⟨final, later, same⟩ := after same later
    exact ⟨final, .act form done later, same⟩
  | refuse refused => contradiction

theorem mirrorsTurns (control : String) (target : Operand) (inner : first.Mirrors second) :
    Task.Mirrors (.turns control target first) (.turns control target second) := by
  intro store other last report same h
  generalize turns : Task.turns control target first = task at h
  generalize reached : Progress.through last report = progress at h
  induction h generalizing other last report with
  | @leave _ _ _ reach store read equal =>
    cases turns
    cases reached
    rw [valueAlike fun known _ => same known] at read
    rw [same control] at equal
    exact ⟨other, .leave read equal, same⟩
  | pass read differs body later _ ih =>
    cases turns
    obtain ⟨more, rfl, rfl⟩ := Progress.throughAfter.mp reached
    obtain ⟨middle, body, after⟩ := inner same body
    obtain ⟨final, later, after⟩ := ih after rfl rfl
    rw [valueAlike fun known _ => same known] at read
    rw [same control] at differs
    exact ⟨final, .pass read differs body later, after⟩
  | passStopped read differs body => contradiction
  | _ => contradiction

theorem mirrorsLoop (head close : Statement) (inner : first.Mirrors second)
    (after : front.Mirrors behind) :
    Mirrors (loop head first close front) (loop head second close behind) := by
  intro store other last report same h
  generalize reached : Progress.through last report = progress at h
  cases h with
  | shut refused => contradiction
  | loop form opened turns later =>
    obtain ⟨more, rfl, rfl⟩ := Progress.throughAfter.mp reached
    obtain ⟨middle, turns, between⟩ := mirrorsTurns _ _ inner same turns
    obtain ⟨final, later, behind⟩ := after between later
    rw [sameHeader same] at opened
    exact ⟨final, .loop form opened turns later, behind⟩
  | loopStopped form opened turns => contradiction

theorem mirrorsSelf (block : Block) : block.Mirrors block := by
  induction block with
  | done => exact mirrorsDone
  | simple statement rest ih => exact mirrorsSimple statement ih
  | loop head body close rest inner ih => exact mirrorsLoop head close inner ih

inductive Exchanged (left right : Statement) : Block → Block → Prop where
  | here {rest} :
      Exchanged left right (.simple left (.simple right rest)) (.simple right (.simple left rest))
  | behind {statement rest other} (later : Exchanged left right rest other) :
      Exchanged left right (.simple statement rest) (.simple statement other)
  | within {head body other close rest} (inner : Exchanged left right body other) :
      Exchanged left right (.loop head body close rest) (.loop head other close rest)
  | past {head body close rest other} (later : Exchanged left right rest other) :
      Exchanged left right (.loop head body close rest) (.loop head body close other)

section Exchange

variable {left right : Statement} {deed action : Action} {name label : String}

theorem exchangedMirrors (form : left.instruction = .act deed name)
    (shape : right.instruction = .act action label) (apart : name ≠ label)
    (exchanged : Exchanged left right first second) : first.Mirrors second := by
  induction exchanged with
  | @here rest =>
    intro store other last report same h
    generalize reached : Progress.through last report = progress at h
    cases h with
    | refuse refused => contradiction
    | act given acted next =>
      cases form.symm.trans given
      obtain ⟨more, rfl, rfl⟩ := Progress.throughAfter.mp reached
      generalize reached : Progress.through last more = progress at next
      cases next with
      | refuse refused => contradiction
      | act given later rest =>
        cases shape.symm.trans given
        obtain ⟨more, rfl, rfl⟩ := Progress.throughAfter.mp reached
        obtain ⟨middle, turned, done, again, same⟩ := actAct apart same acted later
        obtain ⟨final, rest, same⟩ := mirrorsSelf _ same rest
        exact ⟨final, .act shape done (.act form again rest), same⟩
  | behind later ih => exact mirrorsSimple _ ih
  | within inner ih => exact mirrorsLoop _ _ ih (mirrorsSelf _)
  | past later ih => exact mirrorsLoop _ _ (mirrorsSelf _) ih

theorem exchangedSome (form : left.instruction = .act deed name)
    (shape : right.instruction = .act action label) {block : Block} (sound : block.Sound)
    {before after : List Statement} (flat : block.flatten = before ++ left :: right :: after) :
    ∃ other, Exchanged left right block other ∧ other.Sound ∧
      other.flatten = before ++ right :: left :: after := by
  obtain ⟨plain, straight⟩ := Machine.actSimple form
  obtain ⟨simple, even⟩ := Machine.actSimple shape
  have notLeft {bracket : Statement} (here : bracket.opens = true ∨ bracket.closes = true) :
      bracket ≠ left := by
    rintro rfl
    simp [plain, straight] at here
  have notRight {bracket : Statement} (here : bracket.opens = true ∨ bracket.closes = true) :
      bracket ≠ right := by
    rintro rfl
    simp [simple, even] at here
  induction block generalizing before after with
  | done => simp [flatten] at flat
  | simple statement rest ih =>
    obtain ⟨opens, closes, sound⟩ := sound
    cases before with
    | nil =>
      obtain ⟨rfl, tail⟩ := List.cons.inj flat
      cases rest with
      | done => contradiction
      | loop head body close rest => exact absurd (List.cons.inj tail).1 (notRight (.inl sound.1))
      | simple other rest =>
        obtain ⟨rfl, rfl⟩ := List.cons.inj tail
        exact ⟨_, .here, ⟨simple, even, opens, closes, sound.2.2⟩, rfl⟩
    | cons first before =>
      obtain ⟨rfl, tail⟩ := List.cons.inj flat
      obtain ⟨other, exchanged, good, flat⟩ := ih sound tail
      exact ⟨_, .behind exchanged, ⟨opens, closes, good⟩, congrArg (statement :: ·) flat⟩
  | loop head body close rest inner ih =>
    obtain ⟨opens, closes, inside, sound⟩ := sound
    cases before with
    | nil => exact absurd (List.cons.inj flat).1 (notLeft (.inl opens))
    | cons first before =>
      obtain ⟨rfl, tail⟩ := List.cons.inj flat
      rcases pairPlaced (notLeft (.inr closes)) (notRight (.inr closes)) tail with
        ⟨middle, rfl, later⟩ | ⟨middle, within, rfl⟩
      · obtain ⟨other, exchanged, good, flat⟩ := ih sound later
        refine ⟨_, .past exchanged, ⟨opens, closes, inside, good⟩, ?_⟩
        simp only [flatten, flat, List.append_assoc, List.cons_append]
      · obtain ⟨other, exchanged, good, flat⟩ := inner inside within
        refine ⟨_, .within exchanged, ⟨opens, closes, good, sound⟩, ?_⟩
        simp only [flatten, flat, List.append_assoc, List.cons_append]

end Exchange
end Block

namespace Program

def exchanged (program : Program) (index : Nat) : Program :=
  program.swapIfInBounds index (index + 1)

theorem exchangedParts {program : Program} {index : Nat} {first second : Statement}
    (here : program[index]? = some first) (there : program[index + 1]? = some second) :
    ∃ before after, program.toList = before ++ first :: second :: after ∧
      (program.exchanged index).toList = before ++ second :: first :: after := by
  obtain ⟨bound, left⟩ := Array.getElem?_eq_some_iff.mp here
  obtain ⟨limit, right⟩ := Array.getElem?_eq_some_iff.mp there
  have tail : program.toList.drop index = first :: second :: program.toList.drop (index + 2) := by
    rw [List.drop_eq_getElem_cons bound, List.drop_eq_getElem_cons limit, Array.getElem_toList,
      Array.getElem_toList, left, right]
  have parts : program.toList.take index ++ first :: second :: program.toList.drop (index + 2) =
      program.toList := by
    rw [← tail, List.take_append_drop]
  have length : (program.toList.take index).length = index :=
    List.length_take_of_le (Nat.le_of_lt bound)
  refine ⟨_, _, parts.symm, ?_⟩
  simp only [exchanged, Array.swapIfInBounds_def, bound, limit, dif_pos, Array.toList_swap, left,
    right]
  rw [← parts]
  generalize program.toList.take index = before at length ⊢
  subst length
  simp

theorem neighboursExchange {program : Program} {index : Nat} {first second : Statement}
    {deed action : Action} {name label : String} (here : program[index]? = some first)
    (there : program[index + 1]? = some second) (form : first.instruction = .act deed name)
    (shape : second.instruction = .act action label) (apart : name ≠ label)
    {store last : Store} {report : Report} (finishes : program.Finishes store ⟨last, .done report⟩) :
    ∃ final, (program.exchanged index).Finishes store ⟨final, .done report⟩ ∧
      last.Same final := by
  obtain ⟨before, after, whole, other⟩ := exchangedParts here there
  obtain ⟨block, remainder, splits⟩ := Block.splitsSome program.toList
  have concludes := (finishesConcludes splits _ _).mp finishes
  cases concludes with
  | done inner =>
    have flat : block.flatten = before ++ first :: second :: after := by
      rw [← whole, ← splits.whole, List.append_nil]
    obtain ⟨turned, exchanged, good, even⟩ := Block.exchangedSome form shape splits.sound flat
    obtain ⟨final, inner, same⟩ :=
      Block.exchangedMirrors form shape apart exchanged (fun _ => rfl) inner
    have splits : Splits (program.exchanged index).toList turned [] :=
      ⟨good, by rw [List.append_nil, even, other], trivial⟩
    exact ⟨final, (finishesConcludes splits _ _).mpr (.done inner), same⟩

def refill : Program :=
  #[⟨"while x not 2 do", "while x not 2 do;", 1, .loop "x" (.literal 2)⟩,
    ⟨"clear b", "clear b; clear a;", 2, .act .clear "b"⟩,
    ⟨"clear a", "clear b; clear a;", 2, .act .clear "a"⟩,
    ⟨"while a not 1 do", "while a not 1 do;", 3, .loop "a" (.literal 1)⟩,
    ⟨"incr a", "incr a;", 4, .act .incr "a"⟩,
    ⟨"end", "end;", 5, .close⟩,
    ⟨"incr x", "incr x;", 6, .act .incr "x"⟩,
    ⟨"end", "end;", 7, .close⟩]

theorem refillExchanged :
    let first : Statement := ⟨"clear b", "clear b; clear a;", 2, .act .clear "b"⟩
    let second : Statement := ⟨"clear a", "clear b; clear a;", 2, .act .clear "a"⟩
    let last : Store := ⟨[("x", 2), ("b", 0), ("a", 1)], by decide⟩
    refill[1]? = some first ∧ refill[2]? = some second ∧ "b" ≠ "a" ∧
      refill.Finishes (.single "x" 0) ⟨last, .done ⟨11, 4⟩⟩ ∧
      ∃ final, (refill.exchanged 1).Finishes (.single "x" 0) ⟨final, .done ⟨11, 4⟩⟩ ∧
        last.Same final := by
  intro first second last
  have here : refill[1]? = some first := by decide
  have there : refill[2]? = some second := by decide
  have finishes : refill.Finishes (.single "x" 0) ⟨last, .done ⟨11, 4⟩⟩ := ⟨40, by decide⟩
  exact ⟨here, there, by decide, finishes,
    neighboursExchange here there rfl rfl (by decide) finishes⟩

end Program
end CounterLang
