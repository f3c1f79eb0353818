import Mathlib.Data.List.TakeWhile
import CounterLang.Proofs.Reading

/-! The words and the fragments of a text. Words reach from gap to gap and are all that is
not a gap, so there is one way only to find them. Fragments stand between marks and put
together with the marks they are the text again. -/
namespace CounterLang.Text

inductive Spaced (separates : Char → Bool) : List Char → List (List Char) → Prop where
  | gap {cs} (blank : ∀ c ∈ cs, separates c = true) : Spaced separates cs []
  | word {gap word rest words} (blank : ∀ c ∈ gap, separates c = true) (full : word ≠ [])
      (solid : ∀ c ∈ word, separates c = false) (ended : ∀ c ∈ rest.head?, separates c = true)
      (later : Spaced separates rest words) :
      Spaced separates (gap ++ word ++ rest) (word :: words)

section Words

variable {separates : Char → Bool} {cs gap rest : List Char} {words : List (List Char)}

theorem runsBehindGap (blank : ∀ c ∈ gap, separates c = true) (rest : List Char) :
    runs separates (gap ++ rest) = runs separates rest := by
  induction gap with
  | nil => rfl
  | cons c gap ih =>
    obtain ⟨first, others⟩ := List.forall_mem_cons.mp blank
    rw [List.cons_append, ← List.nil_append (c :: _), runsAtSeparator [] _ first, runsNil,
      List.nil_append, ih others]

theorem spacedRuns (spaced : Spaced separates cs words) : runs separates cs = words := by
  induction spaced with
  | @gap cs blank => rw [← List.append_nil cs, runsBehindGap blank, runsNil]
  | @word gap word rest words blank full solid ended later ih =>
    rw [List.append_assoc, runsBehindGap blank]
    cases rest with
    | nil =>
      rw [runsNil] at ih
      rw [List.append_nil, runsWhole full solid, ih]
    | cons c rest =>
      have separator := ended c rfl
      rw [← List.nil_append (c :: rest), runsAtSeparator [] rest separator, runsNil,
        List.nil_append] at ih
      rw [runsAtSeparator word rest separator, runsWhole full solid, ih, List.singleton_append]

/- One more character in front makes the first gap longer, or the first word, or it is a
word of its own. -/
theorem spacedSome (separates : Char → Bool) (cs : List Char) :
    ∃ words, Spaced separates cs words := by
  induction cs with
  | nil => exact ⟨[], .gap (by simp)⟩
  | cons c cs ih =>
    obtain ⟨words, spaced⟩ := ih
    cases separator : separates c with
    | true =>
      cases spaced with
      | gap blank => exact ⟨[], .gap (List.forall_mem_cons.mpr ⟨separator, blank⟩)⟩
      | word blank full solid ended later =>
        exact ⟨_, .word (List.forall_mem_cons.mpr ⟨separator, blank⟩) full solid ended later⟩
    | false =>
      have alone {rest words} (ended : ∀ d ∈ rest.head?, separates d = true)
          (later : Spaced separates rest words) : Spaced separates (c :: rest) ([c] :: words) :=
        @Spaced.word separates [] [c] rest words (by simp) (by simp) (by simp [separator]) ended
          later
      cases spaced with
      | gap blank =>
        exact ⟨_, alone (fun d first => blank d (List.mem_of_mem_head? first)) (.gap blank)⟩
      | @word gap word rest words blank full solid ended later =>
        cases gap with
        | nil =>
          have longer : ∀ d ∈ c :: word, separates d = false :=
            List.forall_mem_cons.mpr ⟨separator, solid⟩
          exact ⟨_, @Spaced.word separates [] (c :: word) rest words (by simp) (by simp) longer
            ended later⟩
        | cons d gap =>
          refine ⟨_, alone ?_ (.word blank full solid ended later)⟩
          intro e first
          cases first
          exact blank d List.mem_cons_self

theorem runsSpaced : runs separates cs = words ↔ Spaced separates cs words := by
  constructor
  · rintro rfl
    obtain ⟨words, spaced⟩ := spacedSome separates cs
    exact spacedRuns spaced ▸ spaced
  · exact spacedRuns

theorem runsNone : runs separates cs = [] ↔ ∀ c ∈ cs, separates c = true := by
  rw [runsSpaced]
  constructor
  · intro spaced
    cases spaced with
    | gap blank => exact blank
  · exact .gap

theorem runsFlatten (separates : Char → Bool) (cs : List Char) :
    (runs separates cs).flatten = cs.filter fun c => !separates c := by
  obtain ⟨words, spaced⟩ := spacedSome separates cs
  rw [spacedRuns spaced]
  induction spaced with
  | gap blank => simpa [List.filter_eq_nil_iff] using blank
  | @word gap word rest words blank full solid ended later ih =>
    have gone : gap.filter (fun c => !separates c) = [] := by
      simpa [List.filter_eq_nil_iff] using blank
    have kept : word.filter (fun c => !separates c) = word := by
      simpa [List.filter_eq_self] using solid
    rw [List.flatten_cons, ih, List.filter_append, List.filter_append, gone, kept, List.nil_append]

end Words

section Fragments

variable {mark : Char} {cs front : List Char}

theorem fragmentsLength (mark : Char) (cs : List Char) :
    (cs.splitOn mark).length = cs.count mark + 1 := by
  induction cs with
  | nil => simp
  | cons c cs ih =>
    rw [List.splitOn_cons_eq_if_modifyHead, List.count_cons]
    split <;> simp_all

theorem fragmentsFirst (mark : Char) (cs : List Char) :
    ∃ first others, cs.splitOn mark = first :: others :=
  List.exists_cons_of_ne_nil (List.splitOn_ne_nil mark cs)

theorem fragmentsClosed (mark : Char) (cs : List Char) :
    (cs.splitOn mark).flatMap (fun fragment => fragment ++ [mark]) = cs ++ [mark] := by
  induction cs with
  | nil => simp
  | cons c cs ih =>
    rw [List.splitOn_cons_eq_if_modifyHead]
    split
    · simp_all
    · obtain ⟨first, others, fragments⟩ := fragmentsFirst mark cs
      rw [fragments] at ih ⊢
      simpa using ih

theorem fragmentsBehind (absent : mark ∉ front) (cs : List Char) :
    (front ++ cs).splitOn mark = (cs.splitOn mark).modifyHead (front ++ ·) := by
  induction front with
  | nil =>
    obtain ⟨first, others, fragments⟩ := fragmentsFirst mark cs
    rw [List.nil_append, fragments]
    rfl
  | cons c front ih =>
    obtain ⟨other, absent⟩ := not_or.mp (mt List.mem_cons.mpr absent)
    have kept : ¬ (c == mark) = true := by simpa using Ne.symm other
    rw [List.cons_append, List.splitOn_cons_eq_if_modifyHead, if_neg kept, ih absent,
      List.modifyHead_modifyHead]
    rfl

theorem fragmentsEnded (ended : [mark] <:+ cs) :
    (cs.splitOn mark).dropLast = cs.dropLast.splitOn mark := by
  obtain ⟨cs, rfl⟩ := ended
  rw [List.splitOn_append_cons_self, List.splitOn_nil, List.dropLast_concat, List.dropLast_concat]

end Fragments

section Trim

def unblanked (cs : List Char) : List Char := cs.filter fun c => !isBlank c

theorem trimWhole (cs : List Char) : ∃ front back, (∀ c ∈ front, isBlank c = true) ∧
    (∀ c ∈ back, isBlank c = true) ∧ cs = front ++ trim cs ++ back := by
  refine ⟨cs.takeWhile isBlank, ((trimStart cs).reverse.takeWhile isBlank).reverse, ?_, ?_, ?_⟩
  · exact fun c member => List.mem_takeWhile_imp member
  · exact fun c member => List.mem_takeWhile_imp (List.mem_reverse.mp member)
  · rw [List.append_assoc, trim, trimEnd, ← List.reverse_append,
      List.takeWhile_append_dropWhile, List.reverse_reverse, trimStart,
      List.takeWhile_append_dropWhile]

theorem trimBlank {c : Char} (blank : isBlank c = true) (cs : List Char) :
    trim (cs ++ [c]) = trim cs := by
  unfold trim trimStart trimEnd
  rw [List.dropWhile_append]
  split
  · rename_i nothing
    simp [blank, List.isEmpty_iff.mp nothing]
  · simp [blank]

theorem fragmentsTrimmed {mark : Char} (solid : isBlank mark = false) {raw : List Char}
    (closed : [mark] <:+ trim raw) : ∃ body back, raw = body ++ mark :: back ∧
      (∀ c ∈ back, isBlank c = true) ∧
      (body.splitOn mark).map (runs isBlank) =
        ((trim raw).dropLast.splitOn mark).map (runs isBlank) := by
  obtain ⟨front, back, before, behind, whole⟩ := trimWhole raw
  obtain ⟨inner, same⟩ := closed
  have absent : mark ∉ front := by
    intro member
    rw [before mark member] at solid
    contradiction
  refine ⟨front ++ inner, back, ?_, behind, ?_⟩
  · rw [whole, ← same]
    simp
  · obtain ⟨first, others, pieces⟩ := fragmentsFirst mark inner
    rw [fragmentsBehind absent, ← same, List.dropLast_concat, pieces, List.modifyHead_cons,
      List.map_cons, List.map_cons, runsBehindGap before]

end Trim

section Lines

theorem linesPieces (cs : List Char) : ∃ (front : List (List Char)) (last : List Char),
    cs = front.flatMap (fun line => line ++ ['\n']) ++ last ∧
      lines cs = front.map dropReturn ++ [last].filter (fun line => !line.isEmpty) ∧
      lines (cs ++ ['\n']) = front.map dropReturn ++ [dropReturn last] := by
  obtain ⟨front, last, pieces⟩ : ∃ front last, cs.splitOn '\n' = front ++ [last] :=
    ⟨_, _, (List.dropLast_append_getLast (List.splitOn_ne_nil '\n' cs)).symm⟩
  have whole := fragmentsClosed '\n' cs
  rw [pieces, List.flatMap_append, List.flatMap_singleton, ← List.append_assoc] at whole
  refine ⟨front, last, (List.append_cancel_right whole).symm, ?_, ?_⟩
  · simp [lines, pieces]
  · simp [lines, List.splitOn_append_cons_self, pieces]

theorem linesPast {front : List Char} (whole : front = [] ∨ front.getLast? = some '\n')
    (rest : List Char) : lines (front ++ rest) = lines front ++ lines rest := by
  rcases whole with rfl | closed
  · rw [linesNil]
    rfl
  · obtain ⟨front, rfl⟩ := List.getLast?_eq_some_iff.mp closed
    rw [List.append_assoc, List.singleton_append, linesAfterNewline]

theorem returnDropped (line : List Char) :
    dropReturn line = line ∨ line = dropReturn line ++ ['\r'] := by
  unfold dropReturn
  split
  · rename_i ended
    obtain ⟨line, rfl⟩ := List.getLast?_eq_some_iff.mp ended
    rw [List.dropLast_concat]
    exact .inr rfl
  · exact .inl rfl

theorem unblankedReturn (line : List Char) : unblanked (dropReturn line) = unblanked line := by
  have blank : isBlank '\r' = true := by decide
  rcases returnDropped line with same | same
  · rw [same]
  · conv => rhs; rw [same]
    simp [unblanked, blank]

theorem trimReturn (line : List Char) : trim (dropReturn line) = trim line := by
  rcases returnDropped line with same | same
  · rw [same]
  · conv => rhs; rw [same]
    rw [trimBlank (by decide)]

theorem linesUnblanked (cs : List Char) : (lines cs).flatMap unblanked = unblanked cs := by
  obtain ⟨front, last, rfl, same, _⟩ := linesPieces cs
  have newline : isBlank '\n' = true := by decide
  have lastly : ([last].filter fun line => !line.isEmpty).flatMap unblanked = unblanked last := by
    cases last <;> simp [unblanked]
  rw [same, List.flatMap_append, lastly, List.flatMap_map]
  simp only [unblankedReturn]
  simp [unblanked, List.filter_flatMap, newline]

theorem linesUnclosed {cs : List Char} (full : cs ≠ []) (unclosed : cs.getLast? ≠ some '\n') :
    ∃ front last, lines cs = front ++ [last] ∧
      lines (cs ++ ['\n']) = front ++ [dropReturn last] := by
  obtain ⟨front, last, whole, same, closed⟩ := linesPieces cs
  have some : last ≠ [] := by
    rintro rfl
    rw [List.append_nil] at whole
    rcases List.eq_nil_or_concat front with rfl | ⟨front, line, rfl⟩
    · exact full whole
    · exact unclosed (by simp [whole])
  refine ⟨front.map dropReturn, last, ?_, closed⟩
  rw [same]
  simpa using some

end Lines

end CounterLang.Text
