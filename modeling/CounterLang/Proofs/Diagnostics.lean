import CounterLang.Proofs.Decoding
import CounterLang.Proofs.OpenLoops
import CounterLang.Proofs.Segmentation
import CounterLang.Proofs.Updates

/-! Where faults point. Each fault carries the number and the trimmed text of a line of the
source, and a fault of a run says what a statement of that line says. -/
namespace CounterLang

/- The causes that a statement can raise, each with what it takes from the statement. -/
inductive Raisable (statement : Statement) : Cause → Prop where
  | undefined {name} (needed : name ∈ statement.instruction.needs) :
      Raisable statement (.undefinedVariable name)
  | below {name} (form : statement.instruction = .act .decr name) :
      Raisable statement (.belowZero name statement.text)
  | above {name} (form : statement.instruction = .act .incr name) :
      Raisable statement (.aboveLimit name statement.text)
  | unclosed {control target} (form : statement.instruction = .loop control target) :
      Raisable statement .missingEnd
  | stray (form : statement.instruction = .close) : Raisable statement .redundantEnd
  | malformed {keyword problem} (form : statement.instruction = .malformed keyword problem) :
      Raisable statement (problem.cause keyword)
  | unknown {word} (form : statement.instruction = .unknown word) :
      Raisable statement (.undefinedOperation word)

theorem valueUndefined {target : Operand} {store : Store} {cause : Cause}
    (unread : target.value store = .error cause) : ∃ name, cause = .undefinedVariable name := by
  cases target with
  | literal value => cases unread
  | named name =>
    unfold Operand.value at unread
    dsimp only at unread
    split at unread <;> cases unread
    exact ⟨name, rfl⟩

theorem raisesRaisable {statement : Statement} {closed : Bool} {store : Store} {cause : Cause}
    (raised : statement.raises closed store = some cause) : Raisable statement cause := by
  have undefined {name : String} (same : cause = .undefinedVariable name) :
      Raisable statement cause := by
    subst same
    exact .undefined (raisesUndefined raised).1
  unfold Statement.raises at raised
  cases form : statement.instruction with
  | act action name =>
    simp only [form, actForms] at raised
    cases done : action.result (store.get? name) with
    | ok value => simp [done] at raised
    | error refusal =>
      simp only [done, Option.some.injEq] at raised
      cases refusal with
      | undefined => exact undefined raised.symm
      | outOfRange =>
        subst raised
        cases action with
        | clear =>
          rw [clearDone] at done
          contradiction
        | incr => exact .above form
        | decr => exact .below form
  | loop control target =>
    simp only [form, headerForms] at raised
    cases found : store.get? control with
    | none =>
      simp only [found, Option.some.injEq] at raised
      exact undefined raised.symm
    | some value =>
      simp only [found] at raised
      cases read : target.value store with
      | ok reach =>
        rw [read] at raised
        cases closed <;> cases raised
        exact .unclosed form
      | error other =>
        rw [read] at raised
        cases raised
        obtain ⟨name, same⟩ := valueUndefined read
        exact undefined same
  | close =>
    simp only [form, Option.some.injEq] at raised
    subst raised
    exact .stray form
  | malformed keyword problem =>
    simp only [form, Option.some.injEq] at raised
    subst raised
    exact .malformed form
  | unknown word =>
    simp only [form, Option.some.injEq] at raised
    subst raised
    exact .unknown form

namespace Instruction

def Told (head : String) (arguments : List String) : Instruction → Prop
  | .malformed keyword .missingArgument => keyword.spelling = head
  | .malformed keyword (.tooMany found) => keyword.spelling = head ∧ found = arguments.length
  | .malformed _ .illegalLoop => head = "while"
  | .unknown word => word = head
  | .act _ _ | .loop _ _ | .close => True

theorem wordsTold (head : String) (arguments : List String) :
    Told head arguments (ofWords (head :: arguments)) := by
  have spells := wordsSpelled (head :: arguments)
  generalize ofWords (head :: arguments) = instruction at spells ⊢
  cases spells with
  | unknown foreign => rfl
  | close => trivial
  | missing other => rfl
  | act => trivial
  | tooMany several => exact ⟨rfl, rfl⟩
  | loop => trivial
  | illegal some other => rfl

end Instruction

namespace Source

structure Located (source : String) (line : Nat) (sourceLine : String) : Prop where
  first : 1 ≤ line
  last : line ≤ (Text.lines source.toList).length
  text : ∃ raw, (Text.lines source.toList)[line - 1]? = some raw ∧
    sourceLine = String.ofList (Text.trim raw)

def Repeats (statement : Statement) (first : String) (others : List String) : Cause → Prop
  | .undefinedVariable name => name ∈ statement.instruction.needs
  | .belowZero name text => statement.instruction = .act .decr name ∧ text = statement.text
  | .aboveLimit name text => statement.instruction = .act .incr name ∧ text = statement.text
  | .undefinedOperation word => word = first
  | .missingArgument keyword => keyword.spelling = first
  | .tooManyArguments keyword found => keyword.spelling = first ∧ found = others.length
  | .illegalLoop => first = "while"
  | .missingEnd => ∃ control target, statement.instruction = .loop control target
  | .redundantEnd => statement.instruction = .close
  | .missingTerminator | .emptyStatement => False

def Tells (statement : Statement) (cause : Cause) : Prop :=
  ∃ (first : String) (others : List String),
    Text.Spaced Text.isBlank statement.text.toList ((first :: others).map String.toList) ∧
      Repeats statement first others cause

theorem locatedAt {source : String} {index : Nat} {raw : List Char}
    (found : (Text.lines source.toList)[index]? = some raw) :
    Located source (1 + index) (String.ofList (Text.trim raw)) := by
  obtain ⟨bound, _⟩ := List.getElem?_eq_some_iff.mp found
  refine ⟨Nat.le_add_right 1 index, by omega, raw, ?_, rfl⟩
  rwa [Nat.add_sub_cancel_left]

theorem plainTells {statement : Statement} (plain : Plain statement) {cause : Cause}
    (raisable : Raisable statement cause) : Tells statement cause := by
  obtain ⟨words, phrase, same⟩ := plain
  obtain ⟨first, others, rfl⟩ := List.exists_cons_of_ne_nil phrase.spoken
  have text : statement.text = String.ofList ([' '].intercalate (first :: others)) :=
    congrArg Statement.text same.symm
  have read : statement.instruction =
      .ofWords (String.ofList first :: others.map String.ofList) := by
    rw [← same, worded, Instruction.read, phraseWords phrase]
    rfl
  have told := Instruction.wordsTold (String.ofList first) (others.map String.ofList)
  rw [← read] at told
  have spaced : Text.Spaced Text.isBlank statement.text.toList (first :: others) := by
    rw [text, String.toList_ofList]
    exact Text.runsSpaced.mp (Text.runsJoined (by decide) phrase.solid)
  refine ⟨String.ofList first, others.map String.ofList, ?_, ?_⟩
  · simpa [Function.comp_def, String.toList_ofList] using spaced
  · cases raisable with
    | undefined needed => exact needed
    | below form => exact ⟨form, rfl⟩
    | above form => exact ⟨form, rfl⟩
    | unclosed form => exact ⟨_, _, form⟩
    | stray form => exact form
    | @malformed keyword problem form =>
      rw [form] at told
      cases problem <;> exact told
    | unknown form =>
      rw [form] at told
      exact told

end Source

namespace Program
open Machine

theorem failedRaisable {program : Program} {store last : Store} {fault : Fault}
    (failed : program.Finishes store ⟨last, .failed fault⟩) :
    ∃ statement ∈ program.toList, ∃ cause, fault = statement.fault cause ∧
      Raisable statement cause := by
  obtain ⟨events, traced⟩ := finishesTraces.mp failed
  refine tracesKeep (fun _ _ => True) (fun _ outcome => outcome.ending = .failed fault →
    ∃ statement ∈ program.toList, ∃ cause, fault = statement.fault cause ∧
      Raisable statement cause) (fun _ _ _ => trivial) ?_ traced trivial rfl
  intro past state events outcome sound _ halts failed
  cases halts with
  | finish ended => cases failed
  | lost ended unread => exact absurd unread (neverLost sound)
  | refuse found refused =>
    cases failed
    have stands := (currentSome.mp found).2
    rw [← Array.getElem?_toList] at stands
    exact ⟨_, List.mem_of_getElem? stands, _, rfl, raisesRaisable refused⟩

end Program

namespace Source

theorem faultsLocated (source : String) :
    (∀ fault, read source = .error fault → Located source fault.line fault.sourceLine) ∧
    ∀ program store last fault, read source = .ok program →
      program.Finishes store ⟨last, .failed fault⟩ →
      Located source fault.line fault.sourceLine ∧
        ∃ statement ∈ program.toList, statement.line = fault.line ∧
          Tells statement fault.cause := by
  constructor
  · intro fault refused
    obtain ⟨front, raw, back, whole, _, _, rfl⟩ := linesFail.mp (readError.mp refused)
    have found : (Text.lines source.toList)[front.length]? = some raw := by simp [whole]
    exact locatedAt found
  · intro program store last fault parsed failed
    obtain ⟨statement, member, cause, rfl, raisable⟩ := Program.failedRaisable failed
    obtain ⟨index, raw, found, line, sourceLine⟩ :=
      keptPlaced (linesKept (readOk.mp parsed)) statement member
    have located := locatedAt found
    rw [← line, ← sourceLine] at located
    exact ⟨located, statement, member, rfl, plainTells (readPlain parsed statement member) raisable⟩

def misstep : String :=
  "clear x; clear y;\n\twhile x not 2 do;\r\n  while y not 1 do; incr\u00a0 y; end; decr   x ;\nend;"

theorem misstepLocated :
    let inner := "while y not 1 do; incr\u00a0 y; end; decr   x ;"
    let program : Program :=
      #[⟨"clear x", "clear x; clear y;", 1, .act .clear "x"⟩,
        ⟨"clear y", "clear x; clear y;", 1, .act .clear "y"⟩,
        ⟨"while x not 2 do", "while x not 2 do;", 2, .loop "x" (.literal 2)⟩,
        ⟨"while y not 1 do", inner, 3, .loop "y" (.literal 1)⟩,
        ⟨"incr y", inner, 3, .act .incr "y"⟩,
        ⟨"end", inner, 3, .close⟩,
        ⟨"decr x", inner, 3, .act .decr "x"⟩,
        ⟨"end", "end;", 4, .close⟩]
    let last : Store := ⟨[("x", 0), ("y", 1)], by decide⟩
    let fault : Fault := ⟨3, inner, .belowZero "x" "decr x"⟩
    read misstep = .ok program ∧ program.Finishes .empty ⟨last, .failed fault⟩ ∧
      Located misstep 3 inner ∧
      (∃ statement ∈ program.toList, statement.line = 3 ∧ Tells statement fault.cause) ∧
      read "end;\n\u3000;;\n" = .error ⟨2, ";;", .emptyStatement⟩ ∧
      Located "end;\n\u3000;;\n" 2 ";;" := by
  intro inner program last fault
  have parsed : read misstep = .ok program := by decide
  have failed : program.Finishes .empty ⟨last, .failed fault⟩ := ⟨20, by decide⟩
  have refused : read "end;\n\u3000;;\n" = .error ⟨2, ";;", .emptyStatement⟩ := by decide
  obtain ⟨located, told⟩ := (faultsLocated misstep).2 program .empty last fault parsed failed
  exact ⟨parsed, failed, located, told, refused, (faultsLocated _).1 _ refused⟩

end Source
end CounterLang
