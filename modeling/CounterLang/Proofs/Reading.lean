import Mathlib.Data.List.Forall2
import CounterLang.Source

/-! What reading accepts, and what it gives. A statement has at least one word, and no
word of it holds a blank or a terminator. Its text says the words once more, so that the
text is read as it was read before. -/
namespace CounterLang

theorem bindOk {first second fault : Type} {given : Except fault first}
    {next : first → Except fault second} {result : second} :
    given >>= next = .ok result ↔ ∃ middle, given = .ok middle ∧ next middle = .ok result := by
  cases given with
  | error fault =>
    apply Iff.intro
    · intro failed
      contradiction
    · rintro ⟨middle, failed, _⟩
      contradiction
  | ok middle =>
    apply Iff.intro
    · exact fun done => ⟨middle, rfl, done⟩
    · rintro ⟨other, same, done⟩
      cases same
      exact done

theorem mapOk {input output fault : Type} {f : input → Except fault output} {inputs : List input}
    {outputs : List output} : inputs.mapM f = .ok outputs ↔
      List.Forall₂ (fun given result => f given = .ok result) inputs outputs := by
  induction inputs generalizing outputs with
  | nil =>
    rw [List.mapM_nil, List.forall₂_nil_left_iff]
    exact ⟨fun same => (Except.ok.inj same).symm, fun same => congrArg Except.ok same.symm⟩
  | cons given rest ih =>
    rw [List.mapM_cons, bindOk, List.forall₂_cons_left_iff]
    apply Iff.intro
    · rintro ⟨result, first, others⟩
      obtain ⟨results, later, same⟩ := bindOk.mp others
      exact ⟨result, results, first, ih.mp later, (Except.ok.inj same).symm⟩
    · rintro ⟨result, results, first, later, rfl⟩
      exact ⟨result, first, bindOk.mpr ⟨results, ih.mpr later, rfl⟩⟩

theorem givenFor {input output : Type} {related : input → output → Prop} {inputs : List input}
    {outputs : List output} (all : List.Forall₂ related inputs outputs) {result : output}
    (member : result ∈ outputs) : ∃ given ∈ inputs, related given result := by
  induction all with
  | nil => contradiction
  | cons first rest ih =>
    rcases List.mem_cons.mp member with rfl | later
    · exact ⟨_, List.mem_cons_self, first⟩
    · obtain ⟨given, there, found⟩ := ih later
      exact ⟨given, List.mem_cons_of_mem _ there, found⟩

namespace Text

theorem pieceSolid {separates : Char → Bool} {cs piece : List Char}
    (member : piece ∈ cs.splitOnP separates) : ∀ c ∈ piece, c ∈ cs ∧ separates c = false := by
  induction cs generalizing piece with
  | nil =>
    rw [List.splitOnP_nil, List.mem_singleton] at member
    simp [member]
  | cons d rest ih =>
    rw [List.splitOnP_cons_eq_if_modifyHead] at member
    have later : ∀ other ∈ rest.splitOnP separates, ∀ c ∈ other,
        c ∈ d :: rest ∧ separates c = false := by
      intro other inside c here
      exact ⟨List.mem_cons_of_mem _ (ih inside c here).1, (ih inside c here).2⟩
    split at member
    · rcases List.mem_cons.mp member with rfl | inside
      · simp
      · exact later piece inside
    · -- The character goes in front of the first piece, and there always is one.
      rename_i solid
      obtain ⟨first, others, pieces⟩ :=
        List.exists_cons_of_ne_nil (List.splitOnP_ne_nil separates rest)
      rw [pieces, List.modifyHead_cons] at member
      rw [pieces] at later
      rcases List.mem_cons.mp member with rfl | inside
      · intro c here
        rcases List.mem_cons.mp here with rfl | here
        · exact ⟨List.mem_cons_self, Bool.eq_false_iff.mpr solid⟩
        · exact later first List.mem_cons_self c here
      · exact later piece (List.mem_cons_of_mem _ inside)

theorem runSolid {separates : Char → Bool} {cs word : List Char}
    (member : word ∈ runs separates cs) :
    word ≠ [] ∧ ∀ c ∈ word, c ∈ cs ∧ separates c = false := by
  obtain ⟨inside, full⟩ := List.mem_filter.mp member
  refine ⟨?_, pieceSolid inside⟩
  rintro rfl
  contradiction

theorem runsJoined {separates : Char → Bool} {c : Char} (separator : separates c = true)
    {words : List (List Char)}
    (solid : ∀ word ∈ words, word ≠ [] ∧ ∀ c ∈ word, separates c = false) :
    runs separates ([c].intercalate words) = words := by
  induction words with
  | nil => exact runsNil separates
  | cons word rest ih =>
    obtain ⟨first, others⟩ := List.forall_mem_cons.mp solid
    have whole := runsWhole first.1 first.2
    cases rest with
    | nil => rw [List.intercalate_singleton, whole]
    | cons next rest =>
      rw [List.intercalate_cons_cons, List.append_assoc, List.singleton_append,
        runsAtSeparator _ _ separator, whole, ih others, List.singleton_append]

theorem joinedAvoids {c d : Char} {words : List (List Char)} (apart : c ≠ d)
    (avoids : ∀ word ∈ words, c ∉ word) : c ∉ [d].intercalate words := by
  induction words with
  | nil => exact List.not_mem_nil
  | cons word rest ih =>
    obtain ⟨first, others⟩ := List.forall_mem_cons.mp avoids
    cases rest with
    | nil =>
      rw [List.intercalate_singleton]
      exact first
    | cons next rest =>
      rw [List.intercalate_cons_cons, List.mem_append, List.mem_append, List.mem_singleton]
      rintro ((inside | same) | later)
      · exact first inside
      · exact apart same
      · exact ih others later

theorem trimSolid {cs : List Char} (first : ∀ c ∈ cs.head?, isBlank c = false)
    (last : ∀ c ∈ cs.getLast?, isBlank c = false) : trim cs = cs := by
  have solid : ∀ {ds : List Char}, (∀ c ∈ ds.head?, isBlank c = false) →
      ds.dropWhile isBlank = ds := by
    intro ds front
    cases ds with
    | nil => rfl
    | cons d rest => rw [List.dropWhile_cons_of_neg (by simp [front d rfl])]
  rw [trim, trimStart, solid first, trimEnd, solid, List.reverse_reverse]
  rwa [List.head?_reverse]

theorem linesSolid {line : List Char} (solid : '\n' ∉ line) (last : line.getLast? ≠ some '\r')
    (rest : List Char) : lines (line ++ '\n' :: rest) = line :: lines rest := by
  rw [linesAfterNewline]
  have one : lines (line ++ ['\n']) = [line] := by
    simp [lines, List.splitOn_append_cons_self_of_not_mem solid, dropReturn, last]
  rw [one, List.singleton_append]

end Text

namespace Source

def worded (number : Nat) (sourceLine : String) (words : List (List Char)) : Statement :=
  let text := String.ofList ([' '].intercalate words)
  ⟨text, sourceLine, number, Instruction.read text⟩

theorem statementOk {number : Nat} {sourceLine : String} {fragment : List Char}
    {statement : Statement} : statementOf number sourceLine fragment = .ok statement ↔
      Text.runs Text.isBlank fragment ≠ [] ∧
        worded number sourceLine (Text.runs Text.isBlank fragment) = statement := by
  unfold statementOf
  split
  · rename_i blank
    rw [blank]
    apply Iff.intro
    · intro failed
      contradiction
    · exact fun ⟨spoken, _⟩ => absurd rfl spoken
  · rename_i pieces spoken
    apply Iff.intro
    · exact fun made => ⟨spoken, Except.ok.inj made⟩
    · exact fun ⟨_, made⟩ => congrArg Except.ok made

theorem lineOk {number : Nat} {raw : List Char} {statements : List Statement} :
    readLine number raw = .ok statements ↔ (Text.trim raw).getLast? = some terminator ∧
      List.Forall₂ (fun fragment statement =>
        statementOf number (String.ofList (Text.trim raw)) fragment = .ok statement)
        ((Text.trim raw).dropLast.splitOn terminator) statements := by
  unfold readLine
  dsimp only
  split
  · rename_i closed
    rw [mapOk, and_iff_right closed]
  · rename_i unclosed
    apply Iff.intro
    · intro failed
      contradiction
    · exact fun ⟨closed, _⟩ => absurd closed unclosed

def readLines (number : Nat) : List (List Char) → Except Fault (List Statement)
  | [] => .ok []
  | raw :: rest => do
    let first ← readLine number raw
    let later ← readLines (number + 1) rest
    return first ++ later

theorem readForms (source : String) :
    read source = (readLines 1 (Text.lines source.toList)).map List.toArray := by
  have numbered (lines : List (List Char)) (number : Nat) : readLines number lines =
      ((lines.zipIdx number).mapM fun entry => readLine entry.2 entry.1).map List.flatten := by
    induction lines generalizing number with
    | nil => rfl
    | cons raw rest ih =>
      rw [readLines, List.zipIdx_cons, List.mapM_cons, ih]
      cases readLine number raw with
      | error fault => rfl
      | ok first =>
        cases (rest.zipIdx (number + 1)).mapM fun entry => readLine entry.2 entry.1 <;> rfl
  rw [numbered, read]
  cases ((Text.lines source.toList).zipIdx 1).mapM fun entry => readLine entry.2 entry.1 <;> rfl

theorem readOk {source : String} {program : Program} :
    read source = .ok program ↔ readLines 1 (Text.lines source.toList) = .ok program.toList := by
  rw [readForms]
  cases readLines 1 (Text.lines source.toList) with
  | error fault => simp [Except.map]
  | ok statements =>
    simp only [Except.map, Except.ok.injEq]
    constructor
    · rintro rfl
      rfl
    · rintro rfl
      rfl

theorem readError {source : String} {fault : Fault} :
    read source = .error fault ↔ readLines 1 (Text.lines source.toList) = .error fault := by
  rw [readForms]
  cases readLines 1 (Text.lines source.toList) <;> simp [Except.map]

theorem linesOk {number : Nat} {raw : List Char} {rest : List (List Char)}
    {statements : List Statement} : readLines number (raw :: rest) = .ok statements ↔
      ∃ first later, readLine number raw = .ok first ∧
        readLines (number + 1) rest = .ok later ∧ first ++ later = statements := by
  rw [readLines, bindOk]
  simp only [bindOk]
  constructor
  · rintro ⟨first, here, later, there, same⟩
    exact ⟨first, later, here, there, Except.ok.inj same⟩
  · rintro ⟨first, later, here, there, rfl⟩
    exact ⟨first, here, later, there, rfl⟩

theorem linesError {number : Nat} {raw : List Char} {rest : List (List Char)} {fault : Fault} :
    readLines number (raw :: rest) = .error fault ↔ readLine number raw = .error fault ∨
      (∃ first, readLine number raw = .ok first) ∧ readLines (number + 1) rest = .error fault := by
  rw [readLines]
  cases readLine number raw with
  | error other => simp [bind, Except.bind]
  | ok first =>
    cases readLines (number + 1) rest <;> simp [bind, Except.bind, pure, Except.pure]

structure Phrase (words : List (List Char)) : Prop where
  spoken : words ≠ []
  solid : ∀ word ∈ words, word ≠ [] ∧ ∀ c ∈ word, Text.isBlank c = false
  inside : ∀ word ∈ words, terminator ∉ word

theorem fragmentPhrase {cs fragment : List Char} (member : fragment ∈ cs.splitOn terminator)
    (spoken : Text.runs Text.isBlank fragment ≠ []) :
    Phrase (Text.runs Text.isBlank fragment) where
  spoken := spoken
  solid word found := by
    obtain ⟨full, solid⟩ := Text.runSolid found
    exact ⟨full, fun c here => (solid c here).2⟩
  inside word found here := by
    rw [List.splitOn_eq_splitOnP] at member
    have other := (Text.pieceSolid member _ ((Text.runSolid found).2 _ here).1).2
    exact absurd other (by simp)

def Plain (statement : Statement) : Prop :=
  ∃ words, Phrase words ∧ worded statement.line statement.sourceLine words = statement

theorem linePlain {number : Nat} {raw : List Char} {statements : List Statement}
    (done : readLine number raw = .ok statements) : ∀ statement ∈ statements, Plain statement := by
  intro statement member
  obtain ⟨fragment, there, made⟩ := givenFor (lineOk.mp done).2 member
  obtain ⟨spoken, rfl⟩ := statementOk.mp made
  exact ⟨_, fragmentPhrase there spoken, rfl⟩

theorem linesPlain {number : Nat} {lines : List (List Char)} {statements : List Statement}
    (done : readLines number lines = .ok statements) :
    ∀ statement ∈ statements, Plain statement := by
  induction lines generalizing number statements with
  | nil =>
    cases done
    simp
  | cons raw rest ih =>
    obtain ⟨first, later, here, there, rfl⟩ := linesOk.mp done
    intro statement member
    rcases List.mem_append.mp member with member | member
    · exact linePlain here statement member
    · exact ih there statement member

theorem readPlain {source : String} {program : Program} (parsed : read source = .ok program) :
    ∀ statement ∈ program.toList, Plain statement := linesPlain (readOk.mp parsed)

end Source
end CounterLang
