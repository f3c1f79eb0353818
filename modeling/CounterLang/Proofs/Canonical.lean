import CounterLang.Proofs.Lockstep
import CounterLang.Proofs.Reading

/-! Programs written out again, one statement to a line and one space between words. What is
written is read as the same statements, each at a line of its own. A run does not look at
lines, so they show in a fault only. -/
namespace CounterLang
open Nesting

/- A statement that has a line to itself. -/
def Statement.placed (statement : Statement) (number : Nat) : Statement :=
  ⟨statement.text, statement.text ++ ";", number, statement.instruction⟩

namespace Program

def written (program : Program) : String :=
  String.join (program.toList.map fun statement => statement.text ++ ";\n")

def canonical (program : Program) : Program :=
  ((program.toList.zipIdx 1).map fun entry => entry.1.placed entry.2).toArray

end Program

namespace Source

variable {words : List (List Char)}

theorem joinedFirst (phrase : Phrase words) :
    ∃ c rest, [' '].intercalate words = c :: rest ∧ Text.isBlank c = false := by
  obtain ⟨spoken, solid, _⟩ := phrase
  cases words with
  | nil => contradiction
  | cons word rest =>
    obtain ⟨full, letters⟩ := solid word List.mem_cons_self
    cases word with
    | nil => contradiction
    | cons c word =>
      exact ⟨c, _, List.intercalate_cons_cons_left, letters c List.mem_cons_self⟩

theorem joinedRead (phrase : Phrase words) (number : Nat) :
    readLine number ([' '].intercalate words ++ [terminator]) =
      .ok [worded number (String.ofList ([' '].intercalate words ++ [terminator])) words] := by
  have trimmed : Text.trim ([' '].intercalate words ++ [terminator]) =
      [' '].intercalate words ++ [terminator] := by
    apply Text.trimSolid
    · obtain ⟨c, rest, form, solid⟩ := joinedFirst phrase
      simp [form, solid]
    · simp only [List.getLast?_concat, Option.mem_some_iff, forall_eq']
      decide
  have found : Text.runs Text.isBlank ([' '].intercalate words) = words :=
    Text.runsJoined (by decide) phrase.solid
  have whole : ([' '].intercalate words).splitOn terminator = [[' '].intercalate words] :=
    List.splitOn_eq_singleton (Text.joinedAvoids (by decide) phrase.inside)
  rw [lineOk, trimmed, List.dropLast_concat, whole]
  refine ⟨List.getLast?_concat, .cons (statementOk.mpr ?_) .nil⟩
  rw [found]
  exact ⟨phrase.spoken, rfl⟩

theorem placedRead {statement : Statement} (plain : Plain statement) (number : Nat) :
    readLine number (statement.text.toList ++ [terminator]) = .ok [statement.placed number] := by
  obtain ⟨words, phrase, same⟩ := plain
  rw [← same, worded, String.toList_ofList, joinedRead phrase, String.ofList_append]
  rfl

theorem lineWritten {statement : Statement} (plain : Plain statement) (rest : List Char) :
    Text.lines ((statement.text ++ ";\n").toList ++ rest) =
      (statement.text.toList ++ [terminator]) :: Text.lines rest := by
  obtain ⟨words, phrase, same⟩ := plain
  have inside : '\n' ∉ [' '].intercalate words :=
    Text.joinedAvoids (by decide) fun word there inside =>
      absurd ((phrase.solid word there).2 _ inside) (by decide)
  have shape : (statement.text ++ ";\n").toList ++ rest =
      statement.text.toList ++ [terminator] ++ '\n' :: rest := by
    rw [String.toList_append, List.append_assoc, List.append_assoc]
    rfl
  rw [shape, Text.linesSolid]
  · rw [← same, worded, String.toList_ofList]
    simp [inside, terminator]
  · simp [terminator]

theorem linesWritten {statements : List Statement}
    (plain : ∀ statement ∈ statements, Plain statement) :
    Text.lines ((statements.map fun statement => statement.text ++ ";\n").flatMap String.toList) =
      statements.map fun statement => statement.text.toList ++ [terminator] := by
  induction statements with
  | nil => exact Text.linesNil
  | cons statement rest ih =>
    obtain ⟨first, others⟩ := List.forall_mem_cons.mp plain
    rw [List.map_cons, List.flatMap_cons, lineWritten first, ih others, List.map_cons]

theorem linesPlaced {statements : List Statement}
    (plain : ∀ statement ∈ statements, Plain statement) (number : Nat) :
    readLines number (statements.map fun statement => statement.text.toList ++ [terminator]) =
      .ok ((statements.zipIdx number).map fun entry => entry.1.placed entry.2) := by
  induction statements generalizing number with
  | nil => rfl
  | cons statement rest ih =>
    obtain ⟨first, others⟩ := List.forall_mem_cons.mp plain
    rw [List.map_cons, readLines, placedRead first, ih others]
    rfl

theorem readWritten {program : Program} (plain : ∀ statement ∈ program.toList, Plain statement) :
    read program.written = .ok program.canonical := by
  rw [readOk, Program.written, String.toList_join, linesWritten plain, linesPlaced plain]
  rfl

end Source

namespace Program

theorem canonicalAt (program : Program) (index : Nat) :
    program.canonical[index]? = program[index]?.map fun statement =>
      statement.placed (index + 1) := by
  rw [canonical, List.getElem?_toArray, List.getElem?_map, List.getElem?_zipIdx,
    Array.getElem?_toList, Option.map_map, Nat.add_comm]
  rfl

theorem canonicalMap {result : Type} {told : Statement → result}
    (same : ∀ statement number, told (statement.placed number) = told statement)
    (program : Program) : program.canonical.toList.map told = program.toList.map told := by
  have first : (program.toList.zipIdx 1).map (told ∘ Prod.fst) = program.toList.map told := by
    rw [← List.map_map, List.zipIdx_map_fst]
  rw [canonical, List.map_map, ← first]
  exact List.map_congr_left fun entry _ => same entry.1 entry.2

def unplaced : Likeness :=
  .oneStore fun left right => left.text = right.text ∧ left.instruction = right.instruction

theorem unplacedKept : unplaced.Kept := Likeness.keptOneStore id

theorem canonicalBrackets (program : Program) : SameBrackets program program.canonical :=
  (canonicalMap (fun _ _ => rfl) program).symm

theorem canonicalAlike (program : Program) :
    unplaced.Programs (fun _ => True) program program.canonical where
  brackets := canonicalBrackets program
  alike {index left} _ found := by
    rw [canonicalAt, found]
    exact ⟨_, rfl, rfl, rfl⟩

theorem alikeCanonical (program : Program) :
    unplaced.Programs (fun _ => True) program.canonical program where
  brackets := (canonicalBrackets program).symm
  alike {index right} _ found := by
    rw [canonicalAt, Option.map_eq_some_iff] at found
    obtain ⟨left, here, rfl⟩ := found
    exact ⟨left, here, rfl, rfl⟩

structure Reprinted (program again : Program) : Prop where
  size : again.size = program.size
  statements : ∀ (index : Nat) statement, program[index]? = some statement →
    again[index]? =
      some ⟨statement.text, statement.text ++ ";", index + 1, statement.instruction⟩
  written : again.written = program.written
  runs : ∀ store, unplaced.Together program again store store

theorem writtenReads {source : String} {program : Program}
    (parsed : Source.read source = .ok program) :
    ∃ again, Source.read program.written = .ok again ∧ Reprinted program again := by
  have plain := Source.readPlain parsed
  refine ⟨program.canonical, Source.readWritten plain, ?_, ?_, ?_, fun store => ?_⟩
  · exact (sizeBrackets (canonicalBrackets program)).symm
  · intro index statement found
    rw [canonicalAt, found]
    rfl
  · exact congrArg String.join (canonicalMap (fun _ _ => rfl) program)
  · exact Likeness.runTogether unplacedKept (canonicalAlike program) (alikeCanonical program)
      rfl rfl

def ragged : String :=
  "clear\u00a0 x ;incr\tx;\r\n while x not 2 do ; incr x;end;\n\u3000decr  y;"

theorem raggedReads :
    let program : Program :=
      #[⟨"clear x", "clear\u00a0 x ;incr\tx;", 1, .act .clear "x"⟩,
        ⟨"incr x", "clear\u00a0 x ;incr\tx;", 1, .act .incr "x"⟩,
        ⟨"while x not 2 do", "while x not 2 do ; incr x;end;", 2, .loop "x" (.literal 2)⟩,
        ⟨"incr x", "while x not 2 do ; incr x;end;", 2, .act .incr "x"⟩,
        ⟨"end", "while x not 2 do ; incr x;end;", 2, .close⟩,
        ⟨"decr y", "decr  y;", 3, .act .decr "y"⟩]
    Source.read ragged = .ok program ∧
      program.written = "clear x;\nincr x;\nwhile x not 2 do;\nincr x;\nend;\ndecr y;\n" ∧
      ∃ again, Source.read program.written = .ok again ∧ Reprinted program again := by
  intro program
  have parsed : Source.read ragged = .ok program := by decide
  exact ⟨parsed, rfl, writtenReads parsed⟩

end Program
end CounterLang
