import CounterLang.Proofs.Words

/-! Which texts can be read, and what is said of the others. Each line is proper or not by
itself, and the first line that is not proper gives the fault. Of the words in a statement
it only counts that there are some. -/
namespace CounterLang

theorem mapFault {input output fault : Type} {f : input → Except fault output}
    {inputs : List input} {found : fault} (failed : inputs.mapM f = .error found) :
    ∃ given ∈ inputs, f given = .error found := by
  induction inputs with
  | nil => contradiction
  | cons given rest ih =>
    rw [List.mapM_cons] at failed
    cases first : f given with
    | error other =>
      rw [first] at failed
      cases failed
      exact ⟨given, List.mem_cons_self, first⟩
    | ok result =>
      cases later : rest.mapM f with
      | ok results =>
        rw [first, later] at failed
        contradiction
      | error other =>
        rw [first, later] at failed
        cases failed
        obtain ⟨given, member, here⟩ := ih later
        exact ⟨given, List.mem_cons_of_mem _ member, here⟩

namespace Source

structure Proper (raw : List Char) : Prop where
  closed : [terminator] <:+ Text.trim raw
  spoken : ∀ fragment ∈ ((Text.trim raw).splitOn terminator).dropLast,
    ∃ c ∈ fragment, Text.isBlank c = false

/- What is said of a line that is not proper. A missing terminator comes before all else. -/
def offence (number : Nat) (raw : List Char) : Fault :=
  ⟨number, String.ofList (Text.trim raw),
    if [terminator] <:+ Text.trim raw then .emptyStatement else .missingTerminator⟩

def FirstOffence (number : Nat) (lines : List (List Char)) (fault : Fault) : Prop :=
  ∃ front raw back, lines = front ++ raw :: back ∧ (∀ line ∈ front, Proper line) ∧
    ¬ Proper raw ∧ fault = offence (number + front.length) raw

theorem lineProper {number : Nat} {raw : List Char} :
    (∃ statements, readLine number raw = .ok statements) ↔ Proper raw := by
  simp only [lineOk, statementOk, ← List.singleton_suffix_iff_getLast?_eq_some]
  have spoken (fragment : List Char) : Text.runs Text.isBlank fragment ≠ [] ↔
      ∃ c ∈ fragment, Text.isBlank c = false := by
    simp [Text.runsNone]
  constructor
  · rintro ⟨statements, closed, fragments⟩
    refine ⟨closed, fun fragment member => ?_⟩
    rw [Text.fragmentsEnded closed] at member
    obtain ⟨statement, _, found, _⟩ := givenFor fragments.flip member
    exact (spoken fragment).mp found
  · rintro ⟨closed, full⟩
    rw [Text.fragmentsEnded closed] at full
    let statements := ((Text.trim raw).dropLast.splitOn terminator).map fun fragment =>
      worded number (String.ofList (Text.trim raw)) (Text.runs Text.isBlank fragment)
    refine ⟨statements, closed, List.forall₂_map_right_iff.mpr (List.forall₂_same.mpr ?_)⟩
    exact fun fragment member => ⟨(spoken fragment).mpr (full fragment member), rfl⟩

theorem lineOffence {number : Nat} {raw : List Char} {fault : Fault}
    (failed : readLine number raw = .error fault) : fault = offence number raw := by
  unfold readLine at failed
  simp only [← List.singleton_suffix_iff_getLast?_eq_some] at failed
  unfold offence
  split at failed
  · rename_i closed
    obtain ⟨fragment, _, found⟩ := mapFault failed
    rw [if_pos closed]
    unfold statementOf at found
    split at found <;> cases found
    rfl
  · rename_i unclosed
    rw [if_neg unclosed]
    exact (Except.error.inj failed).symm

theorem lineFails {number : Nat} {raw : List Char} {fault : Fault} :
    readLine number raw = .error fault ↔ ¬ Proper raw ∧ fault = offence number raw := by
  cases outcome : readLine number raw with
  | error other =>
    have same := lineOffence outcome
    have improper : ¬ Proper raw := by
      intro proper
      obtain ⟨statements, done⟩ := lineProper.mpr proper
      rw [outcome] at done
      contradiction
    simp [same, improper, eq_comm]
  | ok statements => simp [lineProper.mp ⟨statements, outcome⟩]

theorem linesProper {number : Nat} {lines : List (List Char)} :
    (∃ statements, readLines number lines = .ok statements) ↔ ∀ raw ∈ lines, Proper raw := by
  induction lines generalizing number with
  | nil => simp [readLines]
  | cons raw rest ih =>
    rw [List.forall_mem_cons, ← @lineProper number, ← @ih (number + 1)]
    simp only [linesOk]
    constructor
    · rintro ⟨_, first, later, here, there, _⟩
      exact ⟨⟨first, here⟩, later, there⟩
    · rintro ⟨⟨first, here⟩, later, there⟩
      exact ⟨_, first, later, here, there, rfl⟩

theorem linesFail {number : Nat} {lines : List (List Char)} {fault : Fault} :
    readLines number lines = .error fault ↔ FirstOffence number lines fault := by
  induction lines generalizing number with
  | nil => simp [readLines, FirstOffence]
  | cons raw rest ih =>
    rw [linesError, lineFails, lineProper, ih]
    constructor
    · rintro (⟨improper, same⟩ | ⟨proper, front, other, back, whole, first, improper, same⟩)
      · exact ⟨[], raw, rest, rfl, by simp, improper, same⟩
      · refine ⟨raw :: front, other, back, congrArg _ whole, ?_, improper, ?_⟩
        · exact List.forall_mem_cons.mpr ⟨proper, first⟩
        · rw [same, List.length_cons, Nat.add_right_comm, Nat.add_assoc]
    · rintro ⟨front, other, back, whole, first, improper, same⟩
      cases front with
      | nil =>
        cases whole
        exact .inl ⟨improper, same⟩
      | cons line front =>
        cases whole
        obtain ⟨proper, first⟩ := List.forall_mem_cons.mp first
        rw [List.length_cons, ← Nat.add_assoc, Nat.add_right_comm] at same
        exact .inr ⟨proper, front, other, back, rfl, first, improper, same⟩

theorem offenceAhead {lines : List (List Char)} {fault : Fault} :
    FirstOffence 1 lines fault ↔ ∃ front raw, lines.take fault.line = front ++ [raw] ∧
      (∀ line ∈ front, Proper line) ∧ ¬ Proper raw ∧ fault = offence (1 + front.length) raw := by
  constructor
  · rintro ⟨front, raw, back, rfl, first, improper, rfl⟩
    refine ⟨front, raw, ?_, first, improper, rfl⟩
    rw [offence, Nat.add_comm, List.take_length_add_append]
    rfl
  · rintro ⟨front, raw, ahead, first, improper, same⟩
    refine ⟨front, raw, lines.drop fault.line, ?_, first, improper, same⟩
    rw [← List.singleton_append, ← List.append_assoc, ← ahead, List.take_append_drop]

def outline (raw : List Char) : Bool × List Bool :=
  (decide ([terminator] <:+ Text.trim raw),
    ((Text.trim raw).splitOn terminator).dropLast.map fun fragment => fragment.all Text.isBlank)

def outlines (source : String) : List (Bool × List Bool) :=
  (Text.lines source.toList).map outline

theorem properOutline {raw : List Char} :
    Proper raw ↔ (outline raw).1 = true ∧ ∀ blank ∈ (outline raw).2, blank = false := by
  have closed : (outline raw).1 = true ↔ [terminator] <:+ Text.trim raw := decide_eq_true_iff
  have spoken : (∀ blank ∈ (outline raw).2, blank = false) ↔
      ∀ fragment ∈ ((Text.trim raw).splitOn terminator).dropLast,
        ∃ c ∈ fragment, Text.isBlank c = false := by
    simp only [outline, List.forall_mem_map, List.all_eq_false, Bool.not_eq_true]
  rw [closed, spoken]
  exact ⟨fun ⟨closed, spoken⟩ => ⟨closed, spoken⟩, fun ⟨closed, spoken⟩ => ⟨closed, spoken⟩⟩

theorem offenceOutline {left right : List Char} (same : outline left = outline right)
    (number : Nat) : offence number left =
      ⟨number, String.ofList (Text.trim left), (offence number right).cause⟩ := by
  obtain ⟨closed, _⟩ := Prod.mk.inj same
  rw [decide_eq_decide] at closed
  simp only [offence, closed]

theorem offenceOutlined {lines others : List (List Char)} {fault : Fault}
    (found : FirstOffence 1 lines fault)
    (same : (others.map outline).take fault.line = (lines.map outline).take fault.line) :
    ∃ text, FirstOffence 1 others ⟨fault.line, text, fault.cause⟩ := by
  obtain ⟨front, raw, ahead, first, improper, cause⟩ := offenceAhead.mp found
  rw [← List.map_take, ← List.map_take, ahead, List.map_append, List.map_singleton] at same
  obtain ⟨others, last, whole, before, after⟩ := List.map_eq_append_iff.mp same
  obtain ⟨other, rfl, alike⟩ := List.map_eq_singleton_iff.mp after
  have size : others.length = front.length := by simpa using congrArg List.length before
  refine ⟨String.ofList (Text.trim other), offenceAhead.mpr ⟨others, other, whole, ?_, ?_, ?_⟩⟩
  · intro line member
    have outlined := List.mem_map_of_mem (f := outline) member
    rw [before] at outlined
    obtain ⟨model, there, same⟩ := List.mem_map.mp outlined
    rw [properOutline, ← same, ← properOutline]
    exact first model there
  · rwa [properOutline, alike, ← properOutline]
  · rw [offenceOutline alike, size, cause]
    rfl

theorem linesDecide (source : String) :
    ((∃ program, read source = .ok program) ↔
      ∀ raw ∈ Text.lines source.toList, Proper raw) ∧
    (∀ fault, read source = .error fault ↔
      FirstOffence 1 (Text.lines source.toList) fault) ∧
    (∀ other fault, read source = .error fault →
      (Text.lines other.toList).take fault.line = (Text.lines source.toList).take fault.line →
      read other = .error fault) ∧
    (∀ other fault, read source = .error fault →
      (outlines other).take fault.line = (outlines source).take fault.line →
      ∃ text, read other = .error ⟨fault.line, text, fault.cause⟩) ∧
    ∀ other, outlines other = outlines source →
      ((∃ program, read other = .ok program) ↔ ∃ program, read source = .ok program) := by
  have accepted (source : String) : (∃ program, read source = .ok program) ↔
      ∀ raw ∈ Text.lines source.toList, Proper raw := by
    rw [← @linesProper 1]
    constructor
    · rintro ⟨program, parsed⟩
      exact ⟨program.toList, readOk.mp parsed⟩
    · rintro ⟨statements, parsed⟩
      exact ⟨statements.toArray, readOk.mpr parsed⟩
  have outlined (source : String) : (∃ program, read source = .ok program) ↔
      ∀ outline ∈ outlines source, outline.1 = true ∧ ∀ blank ∈ outline.2, blank = false := by
    simp only [accepted, properOutline, outlines, List.forall_mem_map]
  have refused (source : String) (fault : Fault) : read source = .error fault ↔
      FirstOffence 1 (Text.lines source.toList) fault := readError.trans linesFail
  refine ⟨accepted source, refused source, ?_, ?_, fun other same => ?_⟩
  · intro other fault found ahead
    rw [refused, offenceAhead] at found ⊢
    rwa [ahead]
  · intro other fault found same
    simp only [refused] at found ⊢
    exact offenceOutlined found same
  · rw [outlined, outlined, same]

def torn : String := "clear x; incr x;\r\n \u2028;;x\r\r\nend"

def tornShort : String := "clear x; incr x;\n \u2028;;x\r\r\n\n;"

def tornAlike : String := "stop now;end;\n;;y\r\nclear;"

def whole : String := "clear x; incr x;\nend;"

def wholeAlike : String := "\u00a0end;x not;\r\n:;"

theorem tornDecides :
    let fault : Fault := ⟨2, ";;x", .missingTerminator⟩
    read torn = .error fault ∧
      (Text.lines tornShort.toList).take 2 = (Text.lines torn.toList).take 2 ∧
      (outlines tornAlike).take 2 = (outlines torn).take 2 ∧
      outlines wholeAlike = outlines whole ∧
      FirstOffence 1 (Text.lines torn.toList) fault ∧ read tornShort = .error fault ∧
      (∃ text, read tornAlike = .error ⟨2, text, .missingTerminator⟩) ∧
      ((∃ program, read wholeAlike = .ok program) ↔ ∃ program, read whole = .ok program) := by
  intro fault
  have refused : read torn = .error fault := by decide
  have ahead : (Text.lines tornShort.toList).take 2 = (Text.lines torn.toList).take 2 := by decide
  have alike : (outlines tornAlike).take 2 = (outlines torn).take 2 := by decide
  have same : outlines wholeAlike = outlines whole := by decide
  obtain ⟨_, first, later, outlined, _⟩ := linesDecide torn
  exact ⟨refused, ahead, alike, same, (first fault).mp refused, later tornShort fault refused ahead,
    outlined tornAlike fault refused alike, (linesDecide whole).2.2.2.2 wholeAlike same⟩

end Source
end CounterLang
