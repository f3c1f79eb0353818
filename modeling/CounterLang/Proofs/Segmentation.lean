import Mathlib.Data.List.Chain
import CounterLang.Proofs.Acceptance

/-! What reading keeps of a text. Each terminator closes one statement, and the statements of
a line are its fragments in order, word for word. So nothing but blanks gets lost on the way
from the text to its statements. -/
namespace CounterLang

theorem separatorBlank {c : Char} (separates : Token.isSeparator c = true) :
    Text.isBlank c = true := by
  simp only [Token.isSeparator, Bool.or_eq_true, decide_eq_true_eq] at separates
  rcases separates with (((rfl | rfl) | rfl) | rfl) | rfl <;> decide

theorem flatMapAlike {left right result : Type} {related : left → right → Prop}
    {f : left → List result} {g : right → List result} {inputs : List left} {others : List right}
    (all : List.Forall₂ related inputs others)
    (alike : ∀ {input other}, related input other → f input = g other) :
    inputs.flatMap f = others.flatMap g := by
  induction all with
  | nil => rfl
  | cons first rest ih => rw [List.flatMap_cons, List.flatMap_cons, alike first, ih]

namespace Text

theorem joinedFlatten {c : Char} {words : List (List Char)} (absent : ∀ word ∈ words, c ∉ word) :
    ([c].intercalate words).filter (fun d => d ≠ c) = words.flatten := by
  induction words with
  | nil => rfl
  | cons word rest ih =>
    obtain ⟨first, others⟩ := List.forall_mem_cons.mp absent
    have kept : word.filter (fun d => d ≠ c) = word := by
      rw [List.filter_eq_self]
      intro d member
      have apart : d ≠ c := fun same => first (same ▸ member)
      simpa using apart
    cases rest with
    | nil => rw [List.intercalate_singleton, kept, List.flatten_singleton]
    | cons next rest =>
      rw [List.intercalate_cons_cons, List.filter_append, List.filter_append, kept, ih others,
        List.flatten_cons]
      simp

end Text

namespace Source

structure Said (number : Nat) (raw fragment : List Char) (statement : Statement) : Prop where
  line : statement.line = number
  sourceLine : statement.sourceLine = String.ofList (Text.trim raw)
  words : ∃ words, Text.Spaced Text.isBlank fragment words ∧
    statement.text = String.ofList ([' '].intercalate words) ∧
    (Token.scan statement.text).map Prod.snd = words.map String.ofList
  full : statement.text ≠ ""
  bare : terminator ∉ statement.text.toList

def unspaced (statement : Statement) : List Char :=
  statement.text.toList.filter (fun c => c ≠ ' ') ++ [terminator]

structure LineKept (number : Nat) (raw : List Char) (statements : List Statement) : Prop where
  some : statements ≠ []
  fragments : List.Forall₂ (Said number raw) (raw.splitOn terminator).dropLast statements
  unblanked : Text.unblanked raw = statements.flatMap unspaced

theorem phraseWords {words : List (List Char)} (phrase : Phrase words) :
    Token.words (String.ofList ([' '].intercalate words)) = words.map String.ofList := by
  rw [Token.words, String.toList_ofList, Text.runsJoined (by decide)]
  intro word member
  obtain ⟨full, solid⟩ := phrase.solid word member
  refine ⟨full, fun c inside => Bool.eq_false_iff.mpr fun separates => ?_⟩
  exact Bool.eq_false_iff.mp (solid c inside) (separatorBlank separates)

theorem wordedSaid {number : Nat} {raw cs fragment : List Char}
    (member : fragment ∈ cs.splitOn terminator)
    (spoken : Text.runs Text.isBlank fragment ≠ []) :
    Said number raw fragment
      (worded number (String.ofList (Text.trim raw)) (Text.runs Text.isBlank fragment)) := by
  have phrase := fragmentPhrase member spoken
  have found := phraseWords phrase
  refine ⟨rfl, rfl, ⟨_, Text.runsSpaced.mp rfl, rfl, ?_⟩, ?_, ?_⟩
  · rw [Token.scan, List.map_map]
    exact (List.map_id _).trans found
  · intro (nothing : String.ofList _ = "")
    rw [nothing] at found
    exact spoken (List.map_eq_nil_iff.mp found.symm)
  · rw [worded, String.toList_ofList]
    exact Text.joinedAvoids (by decide) phrase.inside

theorem saidUnblanked {number : Nat} {raw fragment : List Char} {statement : Statement}
    (said : Said number raw fragment statement) :
    Text.unblanked (fragment ++ [terminator]) = unspaced statement := by
  obtain ⟨words, spaced, text, _⟩ := said.words
  have runs := Text.spacedRuns spaced
  have absent : ∀ word ∈ words, ' ' ∉ word := by
    intro word member inside
    rw [← runs] at member
    exact absurd ((Text.runSolid member).2 _ inside).2 (by decide)
  have closed : Text.isBlank terminator = false := by decide
  rw [unspaced, text, String.toList_ofList, Text.joinedFlatten absent, ← runs, Text.runsFlatten]
  simp [Text.unblanked, closed]

theorem fragmentsSaid {number : Nat} {raw cs : List Char} {statements : List Statement}
    (spoken : List.Forall₂ (fun words statement => words ≠ [] ∧
      worded number (String.ofList (Text.trim raw)) words = statement)
      ((cs.splitOn terminator).map (Text.runs Text.isBlank)) statements) :
    List.Forall₂ (Said number raw) (cs.splitOn terminator) statements := by
  have members := List.forall₂_map_left_iff.mp spoken
  refine ((List.forall₂_and_left _ _).mpr ⟨fun _ member => member, members⟩).imp ?_
  rintro fragment statement ⟨member, full, rfl⟩
  exact wordedSaid member full

theorem fragmentsUnblanked {number : Nat} {raw body back : List Char}
    {statements : List Statement} (whole : raw = body ++ terminator :: back)
    (behind : ∀ c ∈ back, Text.isBlank c = true)
    (said : List.Forall₂ (Said number raw) (body.splitOn terminator) statements) :
    Text.unblanked raw = statements.flatMap unspaced := by
  have gone : Text.unblanked back = [] := by
    simpa [Text.unblanked, List.filter_eq_nil_iff] using behind
  calc Text.unblanked raw
      = Text.unblanked (body ++ [terminator]) ++ Text.unblanked back := by
        rw [whole, Text.unblanked, Text.unblanked, Text.unblanked, ← List.filter_append,
          List.append_assoc, List.singleton_append]
    _ = Text.unblanked ((body.splitOn terminator).flatMap fun fragment =>
          fragment ++ [terminator]) := by
        rw [gone, List.append_nil, Text.fragmentsClosed]
    _ = (body.splitOn terminator).flatMap fun fragment =>
          Text.unblanked (fragment ++ [terminator]) := List.filter_flatMap
    _ = statements.flatMap unspaced := flatMapAlike said saidUnblanked

theorem lineKept {number : Nat} {raw : List Char} {statements : List Statement}
    (done : readLine number raw = .ok statements) : LineKept number raw statements := by
  obtain ⟨closed, said⟩ := lineOk.mp done
  rw [← List.singleton_suffix_iff_getLast?_eq_some] at closed
  obtain ⟨body, back, whole, behind, same⟩ := Text.fragmentsTrimmed (by decide) closed
  have absent : terminator ∉ back := fun member => absurd (behind _ member) (by decide)
  have pieces : (raw.splitOn terminator).dropLast = body.splitOn terminator := by
    rw [whole, List.splitOn_append_cons_self, List.splitOn_eq_singleton absent,
      List.dropLast_concat]
  have fragments : List.Forall₂ (Said number raw) (body.splitOn terminator) statements := by
    apply fragmentsSaid
    simp only [statementOk] at said
    rw [same]
    exact List.forall₂_map_left_iff.mpr said
  refine ⟨?_, pieces ▸ fragments, fragmentsUnblanked whole behind fragments⟩
  rintro rfl
  exact List.splitOn_ne_nil _ _ (List.forall₂_nil_right_iff.mp fragments)

inductive Kept : Nat → List (List Char) → List Statement → Prop where
  | nothing {number} : Kept number [] []
  | line {number raw rest first later} (here : LineKept number raw first)
      (there : Kept (number + 1) rest later) : Kept number (raw :: rest) (first ++ later)

theorem linesKept {number : Nat} {lines : List (List Char)} {statements : List Statement}
    (done : readLines number lines = .ok statements) : Kept number lines statements := by
  induction lines generalizing number statements with
  | nil =>
    cases done
    exact .nothing
  | cons raw rest ih =>
    obtain ⟨first, later, here, there, rfl⟩ := linesOk.mp done
    exact .line (lineKept here) (ih there)

section Kept

variable {number : Nat} {raw : List Char} {lines : List (List Char)} {statements : List Statement}

theorem lineNumbers (kept : LineKept number raw statements) :
    ∀ statement ∈ statements, statement.line = number := by
  intro statement member
  obtain ⟨fragment, _, said⟩ := givenFor kept.fragments member
  exact said.line

theorem lineLength (kept : LineKept number raw statements) :
    statements.length = raw.count terminator := by
  rw [← kept.fragments.length_eq, List.length_dropLast, Text.fragmentsLength,
    Nat.add_sub_cancel]

theorem keptFrom (kept : Kept number lines statements) :
    ∀ statement ∈ statements, number ≤ statement.line := by
  induction kept with
  | nothing => simp
  | line here there ih =>
    intro statement member
    rcases List.mem_append.mp member with first | later
    · exact Nat.le_of_eq (lineNumbers here statement first).symm
    · exact Nat.le_of_succ_le (ih statement later)

theorem keptHead (kept : Kept number lines statements) :
    ∀ statement ∈ statements.head?, statement.line = number := by
  cases kept with
  | nothing => simp
  | line here there =>
    intro statement first
    rw [List.head?_append_of_ne_nil _ here.some] at first
    exact lineNumbers here statement (List.mem_of_mem_head? first)

theorem keptLast (kept : Kept number lines statements) :
    ∀ statement ∈ statements.getLast?, statement.line + 1 = number + lines.length := by
  induction kept with
  | nothing => simp
  | @line number raw rest first later here there ih =>
    intro statement last
    cases there with
    | nothing =>
      rw [List.append_nil] at last
      rw [lineNumbers here statement (List.mem_of_getLast? last)]
      rfl
    | line next others =>
      rw [List.getLast?_append_of_ne_nil _ (List.append_ne_nil_of_left_ne_nil next.some _)] at last
      rw [ih statement last, List.length_cons, List.length_cons, List.length_cons]
      omega

theorem keptSteps (kept : Kept number lines statements) :
    statements.IsChain fun before after =>
      after.line = before.line ∨ after.line = before.line + 1 := by
  induction kept with
  | nothing => exact .nil
  | line here there ih =>
    refine List.isChain_append.mpr ⟨?_, ih, ?_⟩
    · refine List.Pairwise.isChain (List.pairwise_of_forall_mem_list ?_)
      intro before left after right
      rw [lineNumbers here before left, lineNumbers here after right]
      exact .inl rfl
    · intro before last after next
      rw [lineNumbers here before (List.mem_of_getLast? last), keptHead there after next]
      exact .inr rfl

theorem keptLine (kept : Kept number lines statements) {index : Nat} {raw : List Char}
    (found : lines[index]? = some raw) : LineKept (number + index) raw
      (statements.filter fun statement => statement.line = number + index) := by
  induction kept generalizing index with
  | nothing => contradiction
  | @line number other rest first later here there ih =>
    have numbers := lineNumbers here
    rw [List.filter_append]
    cases index with
    | zero =>
      cases found
      have all : first.filter (fun statement => statement.line = number) = first := by
        simpa [List.filter_eq_self] using numbers
      have none : later.filter (fun statement => statement.line = number) = [] := by
        rw [List.filter_eq_nil_iff]
        intro statement member same
        have above := keptFrom there statement member
        simp only [decide_eq_true_eq] at same
        omega
      rw [Nat.add_zero, all, none, List.append_nil]
      exact here
    | succ index =>
      have none : first.filter (fun statement => statement.line = number + (index + 1)) = [] := by
        rw [List.filter_eq_nil_iff]
        intro statement member same
        simp only [decide_eq_true_eq, numbers statement member] at same
        omega
      rw [none, List.nil_append, ← Nat.add_assoc, Nat.add_right_comm]
      exact ih found

theorem keptPlaced (kept : Kept number lines statements) : ∀ statement ∈ statements,
    ∃ index raw, lines[index]? = some raw ∧ statement.line = number + index ∧
      statement.sourceLine = String.ofList (Text.trim raw) := by
  induction kept with
  | nothing => simp
  | @line number raw rest first later here there ih =>
    intro statement member
    rcases List.mem_append.mp member with member | member
    · obtain ⟨fragment, _, said⟩ := givenFor here.fragments member
      exact ⟨0, raw, rfl, said.line, said.sourceLine⟩
    · obtain ⟨index, raw, found, line, sourceLine⟩ := ih statement member
      exact ⟨index + 1, raw, found, line.trans (Nat.add_right_comm _ _ _), sourceLine⟩

theorem keptUnblanked (kept : Kept number lines statements) :
    lines.flatMap Text.unblanked = statements.flatMap unspaced := by
  induction kept with
  | nothing => rfl
  | line here there ih => rw [List.flatMap_cons, List.flatMap_append, here.unblanked, ih]

theorem keptLength (kept : Kept number lines statements) :
    statements.length = (lines.flatMap Text.unblanked).count terminator := by
  have solid : Text.isBlank terminator = false := by decide
  induction kept with
  | nothing => rfl
  | line here there ih =>
    rw [List.length_append, List.flatMap_cons, List.count_append, ih, lineLength here,
      Text.unblanked, List.count_filter (by simp [solid])]

end Kept

structure Lossless (source : String) (program : Program) : Prop where
  size : program.size = source.toList.count terminator
  lines : ∀ (index : Nat) (raw : List Char), (Text.lines source.toList)[index]? = some raw →
    let here := program.toList.filter fun statement => statement.line = index + 1
    here.length = raw.count terminator ∧
      List.Forall₂ (Said (index + 1) raw) (raw.splitOn terminator).dropLast here
  first : ∀ statement ∈ program.toList.head?, statement.line = 1
  steps : program.toList.IsChain fun before after =>
    after.line = before.line ∨ after.line = before.line + 1
  last : ∀ statement ∈ program.toList.getLast?,
    statement.line = (Text.lines source.toList).length
  unblanked : Text.unblanked source.toList = program.toList.flatMap unspaced

theorem readLossless {source : String} {program : Program} (parsed : read source = .ok program) :
    Lossless source program := by
  have kept := linesKept (readOk.mp parsed)
  have solid : Text.isBlank terminator = false := by decide
  refine ⟨?_, ?_, keptHead kept, keptSteps kept, ?_, ?_⟩
  · rw [← Array.length_toList, keptLength kept, Text.linesUnblanked, Text.unblanked,
      List.count_filter (by simp [solid])]
  · intro index raw found
    have line := keptLine kept found
    rw [Nat.add_comm] at line
    exact ⟨lineLength line, line.fragments⟩
  · intro statement last
    have behind := keptLast kept statement last
    omega
  · rw [← keptUnblanked kept, Text.linesUnblanked]

def crowded : String :=
  "\u2028clear\u00a0 x\u001cy ;\u000bincr\tx\r;\r\r\nend\u200b  of it ;"

theorem crowdedLossless :
    let program : Program :=
      #[⟨"clear x\u001cy", "clear\u00a0 x\u001cy ;\u000bincr\tx\r;", 1, .act .clear "x\u001cy"⟩,
        ⟨"incr x", "clear\u00a0 x\u001cy ;\u000bincr\tx\r;", 1, .act .incr "x"⟩,
        ⟨"end\u200b of it", "end\u200b  of it ;", 2, .unknown "end\u200b"⟩]
    read crowded = .ok program ∧ Lossless crowded program := by
  intro program
  have parsed : read crowded = .ok program := by decide
  exact ⟨parsed, readLossless parsed⟩

end Source
end CounterLang
