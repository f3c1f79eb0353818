import Mathlib.Data.List.Nodup
import Mathlib.Logic.Equiv.Basic
import CounterLang.Proofs.Lockstep

/-! Other names for the counters. A name is never looked into but only compared with other
names, so a run knows nothing of how its counters are called. Texts and places of the
statements are no names and stay as they are. -/
namespace CounterLang

namespace Operand

def renamed (rename : String → String) : Operand → Operand
  | .literal value => .literal value
  | .named name => .named (rename name)

end Operand

namespace Instruction

def renamed (rename : String → String) : Instruction → Instruction
  | .act action name => .act action (rename name)
  | .loop control target => .loop (rename control) (target.renamed rename)
  | .close => .close
  | .malformed keyword problem => .malformed keyword problem
  | .unknown word => .unknown word

theorem keywordRenamed (rename : String → String) (instruction : Instruction) :
    (instruction.renamed rename).keyword? = instruction.keyword? := by
  cases instruction <;> rfl

end Instruction

def Statement.renamed (rename : String → String) (statement : Statement) : Statement :=
  { statement with instruction := statement.instruction.renamed rename }

def Program.renamed (rename : String → String) (program : Program) : Program :=
  (program.toList.map (Statement.renamed rename)).toArray

/- The text that a cause repeats is the text of the statement and not a name. -/
def Cause.renamed (rename : String → String) : Cause → Cause
  | .undefinedVariable name => .undefinedVariable (rename name)
  | .belowZero name text => .belowZero (rename name) text
  | .aboveLimit name text => .aboveLimit (rename name) text
  | cause => cause

def Ending.renamed (rename : String → String) : Ending → Ending
  | .done report => .done report
  | .failed fault => .failed { fault with cause := fault.cause.renamed rename }

section Stores

variable {rename : String → String} (injective : Function.Injective rename)

namespace Store

def renamed (store : Store) : Store :=
  ⟨store.slots.map fun slot => (rename slot.1, slot.2), by
    have names : (store.slots.map fun slot => (rename slot.1, slot.2)).map Prod.fst =
        (store.slots.map Prod.fst).map rename := by simp
    rw [names]
    exact List.Nodup.map injective store.distinct⟩

theorem positionRenamed (store : Store) (name : String) :
    (store.renamed injective).position? (rename name) = store.position? name := by
  simp only [position?, renamed, List.findIdx?_map, Function.comp_def, injective.eq_iff]

theorem getRenamed (store : Store) (name : String) :
    (store.renamed injective).get? (rename name) = store.get? name := by
  rw [get?, get?, positionRenamed]
  simp only [renamed, List.getElem?_map, Option.map_map, Function.comp_def]

theorem putRenamed (store : Store) (name : String) (value : UInt64) :
    (store.put name value).renamed injective =
      (store.renamed injective).put (rename name) value := by
  have slots (other : Store) : (other.renamed injective).slots =
      other.slots.map fun slot => (rename slot.1, slot.2) := rfl
  apply ext
  rw [slotsPut, positionRenamed, slots, slots, slotsPut]
  cases store.position? name with
  | none => exact List.map_append
  | some index => exact List.map_set

end Store

def Outcome.renamed (outcome : Outcome) : Outcome :=
  ⟨outcome.store.renamed injective, outcome.ending.renamed rename⟩

theorem valueRenamed (target : Operand) (store : Store) :
    (target.renamed rename).value (store.renamed injective) =
      (target.value store).mapError (Cause.renamed rename) := by
  cases target with
  | literal value => rfl
  | named name =>
    simp only [Operand.renamed, Operand.value, Store.getRenamed]
    cases store.get? name <;> rfl

theorem headerRenamed (store : Store) (control : String) (target : Operand) :
    (store.renamed injective).header (rename control) (target.renamed rename) =
      (store.header control target).mapError (Cause.renamed rename) := by
  rw [headerForms, headerForms, Store.getRenamed]
  cases store.get? control with
  | none => rfl
  | some value => exact valueRenamed injective target store

theorem refusedRenamed (rename : String → String) (statement : Statement) (action : Action)
    (name : String) (refusal : Refusal) :
    (statement.renamed rename).refused action (rename name) refusal =
      (statement.refused action name refusal).renamed rename := by
  cases refusal with
  | undefined => rfl
  | outOfRange => cases action <;> rfl

theorem raisesRenamed (statement : Statement) (closed : Bool) (store : Store) :
    (statement.renamed rename).raises closed (store.renamed injective) =
      (statement.raises closed store).map (Cause.renamed rename) := by
  unfold Statement.raises
  rw [Statement.renamed]
  cases form : statement.instruction with
  | act action name =>
    have refused := refusedRenamed rename statement action name
    simp only [Statement.renamed, form] at refused
    simp only [Instruction.renamed, actForms, Store.getRenamed]
    cases action.result (store.get? name) with
    | ok value => rfl
    | error refusal => exact congrArg some (refused refusal)
  | loop control target =>
    simp only [Instruction.renamed, headerRenamed]
    cases store.header control target with
    | ok reach => cases closed <;> rfl
    | error cause => rfl
  | close => rfl
  | malformed keyword problem => cases problem <;> rfl
  | unknown word => rfl

def Likeness.renamed : Likeness where
  statements left right := right = left.renamed rename
  stores first second := second = first.renamed injective
  causes cause reason := reason = cause.renamed rename

namespace Likeness

theorem renamedKept : (renamed injective).Kept where
  acts {left right first second action name next} alike stores form done := by
    obtain rfl : right = left.renamed rename := alike
    obtain rfl : second = first.renamed injective := stores
    refine ⟨rename name, next.renamed injective, ?_, ?_, rfl⟩
    · rw [Statement.renamed, form]
      rfl
    · rw [actForms] at done ⊢
      rw [Store.getRenamed]
      split at done <;> cases done
      exact congrArg Except.ok (Store.putRenamed injective first name _).symm
  loops {left right control target} alike form := by
    obtain rfl : right = left.renamed rename := alike
    refine ⟨rename control, target.renamed rename, ?_, ?_⟩
    · rw [Statement.renamed, form]
      rfl
    · intro first second stores
      obtain rfl : second = first.renamed injective := stores
      refine ⟨(Store.getRenamed injective first control).symm, fun reach read => ?_⟩
      rw [valueRenamed, read]
      rfl
  raises {left right first second closed cause} alike stores raised := by
    obtain rfl : right = left.renamed rename := alike
    obtain rfl : second = first.renamed injective := stores
    exact ⟨_, by rw [raisesRenamed, raised]; rfl, rfl⟩

theorem renamedPrograms (program : Program) :
    (renamed injective).Programs (fun _ => True) program (program.renamed rename) where
  brackets := by
    have brackets (statement : Statement) :
        (statement.renamed rename).brackets = statement.brackets := by
      simp only [Statement.brackets, Statement.opens, Statement.closes, Statement.renamed,
        Instruction.opens, Instruction.closes, Instruction.keywordRenamed]
    rw [SameBrackets, Program.renamed, List.map_map]
    exact List.map_congr_left fun statement _ => (brackets statement).symm
  alike {index left} _ found := by
    refine ⟨left.renamed rename, ?_, rfl⟩
    rw [Program.renamed, List.getElem?_toArray, List.getElem?_map, Array.getElem?_toList, found]
    rfl

theorem outcomesRenamed {first second : Program} {events : List Event} {left right : Outcome}
    (outcomes : (renamed injective).Outcomes first second events left right) :
    right = left.renamed injective := by
  cases outcomes with
  | done stores => exact congrArg₂ Outcome.mk stores rfl
  | failed place here there alike causes stores =>
    obtain rfl : _ = _ := alike
    obtain rfl : _ = _ := causes
    exact congrArg₂ Outcome.mk stores rfl

end Likeness

namespace Program

theorem renamedRuns (program : Program) (store : Store) (outcome : Outcome) :
    (program.renamed rename).Finishes (store.renamed injective) outcome ↔
      ∃ first, program.Finishes store first ∧ outcome = first.renamed injective := by
  have kept := Likeness.renamedKept injective
  have programs := Likeness.renamedPrograms injective program
  have forth {first : Outcome} (finishes : program.Finishes store first) :
      (program.renamed rename).Finishes (store.renamed injective) (first.renamed injective) := by
    obtain ⟨events, traced⟩ := finishesTraces.mp finishes
    obtain ⟨told, last, other, _, outcomes⟩ :=
      Likeness.tracesAlike kept programs rfl traced fun _ _ => trivial
    obtain rfl := Likeness.outcomesRenamed injective outcomes
    exact finishesTraces.mpr ⟨told, other⟩
  apply Iff.intro
  · intro finishes
    obtain ⟨first, original⟩ := Likeness.finishesBack kept programs rfl finishes
    exact ⟨first, original, finishesOnce finishes (forth original)⟩
  · rintro ⟨first, finishes, rfl⟩
    exact forth finishes

def pursuit : Program :=
  #[⟨"while x not y do", "while x not y do;", 1, .loop "x" (.named "y")⟩,
    ⟨"incr x", "incr x;", 2, .act .incr "x"⟩,
    ⟨"end", "end;", 3, .close⟩,
    ⟨"decr z", "decr z;", 4, .act .decr "z"⟩]

def strangeNames : Equiv.Perm String :=
  (Equiv.swap "x" "").trans ((Equiv.swap "y" "2").trans (Equiv.swap "z" "not do"))

theorem pursuitRenamed :
    let store : Store := ⟨[("y", 1), ("x", 0)], by decide⟩
    let last : Outcome :=
      ⟨⟨[("2", 1), ("", 1)], by decide⟩, .failed ⟨4, "decr z;", .undefinedVariable "not do"⟩⟩
    Function.Injective strangeNames ∧
      (pursuit.renamed strangeNames).Finishes (store.renamed strangeNames.injective) last ∧
      ∃ first, pursuit.Finishes store first ∧ last = first.renamed strangeNames.injective := by
  intro store last
  have finishes : (pursuit.renamed strangeNames).Finishes
      (store.renamed strangeNames.injective) last := ⟨20, by decide⟩
  exact ⟨strangeNames.injective, finishes, (renamedRuns _ pursuit store last).mp finishes⟩

end Program
end Stores
end CounterLang
