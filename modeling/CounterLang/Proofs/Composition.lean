import CounterLang.Proofs.Evaluation

/-! Evaluation in parts. A block before another, a loop before what follows it and a pass
before the next test are all evaluated in the same way: what comes next is evaluated on
the store left by the first part, unless that was stopped by a fault. -/
namespace CounterLang

namespace Progress

theorem afterZero (progress : Progress) : progress.after .zero = progress := by
  cases progress with
  | through store report => exact congrArg (through store) (zeroReport report)
  | stopped store fault => rfl

theorem afterAfter (first second : Report) (progress : Progress) :
    (progress.after second).after first = progress.after (first + second) := by
  cases progress with
  | through store report => exact congrArg (through store) (reportAssoc first second report).symm
  | stopped store fault => rfl

theorem throughAfter {store : Store} {report total : Report} {progress : Progress} :
    through store total = progress.after report ↔
      ∃ more, progress = through store more ∧ total = report + more := by
  cases progress with
  | through last more =>
    simp only [after, through.injEq]
    exact ⟨fun ⟨place, sum⟩ => ⟨more, ⟨place.symm, rfl⟩, sum⟩,
      fun ⟨_, ⟨place, same⟩, sum⟩ => ⟨place.symm, same ▸ sum⟩⟩
  | stopped last fault => simp [after]

theorem stoppedAfter {store : Store} {fault : Fault} {report : Report} {progress : Progress} :
    stopped store fault = progress.after report ↔ progress = stopped store fault := by
  cases progress with
  | through last more => simp [after]
  | stopped last other => exact eq_comm

inductive Then (next : Store → Progress → Prop) : Progress → Progress → Prop where
  | through {middle report later} (onward : next middle later) :
      Then next (.through middle report) (later.after report)
  | stopped {last fault} : Then next (.stopped last fault) (.stopped last fault)

variable {next : Store → Progress → Prop} {first progress : Progress} {report : Report}

theorem thenAfter : Then next (first.after report) progress ↔
    ∃ other, Then next first other ∧ progress = other.after report := by
  cases first with
  | through middle more =>
    apply Iff.intro
    · intro h
      cases h with
      | @through _ _ later onward =>
        exact ⟨later.after more, .through onward, (afterAfter _ _ _).symm⟩
    · intro ⟨other, h, same⟩
      cases h with
      | @through _ _ later onward =>
        rw [same, afterAfter]
        exact .through onward
  | stopped last fault =>
    apply Iff.intro
    · intro h
      cases h with
      | stopped => exact ⟨_, .stopped, rfl⟩
    · intro ⟨other, h, same⟩
      cases h with
      | stopped =>
        rw [same]
        exact .stopped

theorem thenMono {other : Store → Progress → Prop} (h : Then next first progress)
    (onward : ∀ {middle report later}, first = .through middle report → next middle later →
      other middle later) : Then other first progress := by
  cases h with
  | through found => exact .through (onward rfl found)
  | stopped => exact .stopped

theorem thenThen {last : Store → Progress → Prop} :
    (∃ other, Then next first other ∧ Then last (other.after report) progress) ↔
      Then (fun middle final => ∃ other, next middle other ∧
        Then last (other.after report) final) first progress := by
  apply Iff.intro
  · intro ⟨other, found, behind⟩
    cases found with
    | @through middle more later onward =>
      rw [afterAfter, reportComm, ← afterAfter] at behind
      obtain ⟨final, behind, same⟩ := thenAfter.mp behind
      exact same ▸ .through ⟨later, onward, behind⟩
    | stopped =>
      cases behind
      exact .stopped
  · intro h
    cases h with
    | @through middle more final found =>
      obtain ⟨other, onward, behind⟩ := found
      refine ⟨other.after more, .through onward, ?_⟩
      rw [afterAfter, reportComm, ← afterAfter]
      exact thenAfter.mpr ⟨final, behind, rfl⟩
    | stopped => exact ⟨_, .stopped, .stopped⟩

end Progress

variable {store : Store} {progress : Progress}

theorem evaluatesAppend {front back : Block} :
    Evaluates (.block (front.append back)) store progress ↔
      ∃ first, Evaluates (.block front) store first ∧
        first.Then (fun middle => Evaluates (.block back) middle) progress := by
  induction front generalizing store progress with
  | done =>
    rw [Block.append]
    apply Iff.intro
    · intro h
      refine ⟨.through store .zero, .done, ?_⟩
      rw [← progress.afterZero]
      exact .through h
    · rintro ⟨first, inner, onward⟩
      cases inner
      cases onward with
      | through h =>
        rw [Progress.afterZero]
        exact h
  | simple statement rest ih =>
    rw [Block.append]
    apply Iff.intro
    · intro h
      cases h with
      | act form acted later =>
        obtain ⟨first, inner, onward⟩ := ih.mp later
        exact ⟨_, .act form acted inner, Progress.thenAfter.mpr ⟨_, onward, rfl⟩⟩
      | refuse refused => exact ⟨_, .refuse refused, .stopped⟩
    · rintro ⟨first, inner, onward⟩
      cases inner with
      | act form acted later =>
        obtain ⟨other, onward, same⟩ := Progress.thenAfter.mp onward
        exact same ▸ .act form acted (ih.mpr ⟨_, later, onward⟩)
      | refuse refused =>
        cases onward
        exact .refuse refused
  | loop head body close rest _ ih =>
    rw [Block.append]
    apply Iff.intro
    · intro h
      cases h with
      | shut refused => exact ⟨_, .shut refused, .stopped⟩
      | loop form opened turns later =>
        obtain ⟨first, inner, onward⟩ := ih.mp later
        exact ⟨_, .loop form opened turns inner, Progress.thenAfter.mpr ⟨_, onward, rfl⟩⟩
      | loopStopped form opened turns => exact ⟨_, .loopStopped form opened turns, .stopped⟩
    · rintro ⟨first, inner, onward⟩
      cases inner with
      | shut refused =>
        cases onward
        exact .shut refused
      | loop form opened turns later =>
        obtain ⟨other, onward, same⟩ := Progress.thenAfter.mp onward
        exact same ▸ .loop form opened turns (ih.mpr ⟨_, later, onward⟩)
      | loopStopped form opened turns =>
        cases onward
        exact .loopStopped form opened turns

section Loops

variable {head close : Statement} {control : String} {target : Operand} {body rest : Block}
  {reach : UInt64}

theorem raisesOpened (form : head.instruction = .loop control target)
    (opened : store.header control target = .ok reach) : head.raises true store = none := by
  simp [Statement.raises, form, opened]

theorem evaluatesLoop (form : head.instruction = .loop control target)
    (opened : store.header control target = .ok reach) :
    Evaluates (.block (.loop head body close rest)) store progress ↔
      ∃ turned, Evaluates (.turns control target body) store turned ∧
        (turned.after ⟨1, 0⟩).Then (fun middle => Evaluates (.block rest) middle) progress := by
  apply Iff.intro
  · intro h
    cases h with
    | shut refused =>
      rw [raisesOpened form opened] at refused
      contradiction
    | loop other _ turns later =>
      cases form.symm.trans other
      exact ⟨_, turns, .through later⟩
    | loopStopped other _ turns =>
      cases form.symm.trans other
      exact ⟨_, turns, .stopped⟩
  · intro ⟨turned, turns, onward⟩
    cases turned with
    | through middle report =>
      cases onward with
      | through later => exact .loop form opened turns later
    | stopped last fault =>
      cases onward
      exact .loopStopped form opened turns

theorem turnsLeave (read : target.value store = .ok reach)
    (equal : store.get? control = some reach) :
    Evaluates (.turns control target body) store progress ↔ progress = .through store .zero := by
  apply Iff.intro
  · intro h
    cases h with
    | leave _ _ => rfl
    | pass other differs _ _ =>
      cases read.symm.trans other
      contradiction
    | passStopped other differs _ =>
      cases read.symm.trans other
      contradiction
  · intro same
    exact same ▸ .leave read equal

theorem turnsPass (read : target.value store = .ok reach)
    (differs : store.get? control ≠ some reach) :
    Evaluates (.turns control target body) store progress ↔
      ∃ first, Evaluates (.block body) store first ∧
        (first.after ⟨0, 1⟩).Then (fun middle => Evaluates (.turns control target body) middle)
          progress := by
  apply Iff.intro
  · intro h
    cases h with
    | leave other equal =>
      cases read.symm.trans other
      contradiction
    | pass _ _ inner later =>
      rw [reportComm]
      exact ⟨_, inner, .through later⟩
    | passStopped _ _ inner => exact ⟨_, inner, .stopped⟩
  · intro ⟨first, inner, onward⟩
    cases first with
    | through middle report =>
      cases onward with
      | through later =>
        rw [reportComm]
        exact .pass read differs inner later
    | stopped last fault =>
      cases onward
      exact .passStopped read differs inner

end Loops
end CounterLang
