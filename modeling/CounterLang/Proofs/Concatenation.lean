import CounterLang.Proofs.Acceptance

/-! Texts put together. Where one text ends with a newline the other is read as it would be by
itself, further down. The newline at the very end of a text makes no difference. -/
namespace CounterLang

def Fault.below (count : Nat) (fault : Fault) : Fault := { fault with line := count + fault.line }

def Statement.below (count : Nat) (statement : Statement) : Statement :=
  { statement with line := count + statement.line }

namespace Source

def lowered (count : Nat) (reading : Except Fault (List Statement)) :
    Except Fault (List Statement) :=
  (reading.mapError (Fault.below count)).map (List.map (Statement.below count))

theorem statementBelow (count number : Nat) (sourceLine : String) (fragment : List Char) :
    statementOf (count + number) sourceLine fragment =
      ((statementOf number sourceLine fragment).mapError (Fault.below count)).map
        (Statement.below count) := by
  unfold statementOf
  cases Text.runs Text.isBlank fragment <;> rfl

theorem fragmentsBelow (count number : Nat) (sourceLine : String) (fragments : List (List Char)) :
    fragments.mapM (statementOf (count + number) sourceLine) =
      lowered count (fragments.mapM (statementOf number sourceLine)) := by
  induction fragments with
  | nil => rfl
  | cons fragment rest ih =>
    rw [List.mapM_cons, List.mapM_cons, ih, statementBelow]
    cases statementOf number sourceLine fragment with
    | error fault => rfl
    | ok statement => cases rest.mapM (statementOf number sourceLine) <;> rfl

theorem lineBelow (count number : Nat) (raw : List Char) :
    readLine (count + number) raw = lowered count (readLine number raw) := by
  unfold readLine
  dsimp only
  split
  · exact fragmentsBelow _ _ _ _
  · rfl

theorem linesBelow (count number : Nat) (lines : List (List Char)) :
    readLines (count + number) lines = lowered count (readLines number lines) := by
  induction lines generalizing number with
  | nil => rfl
  | cons raw rest ih =>
    rw [readLines, readLines, lineBelow, Nat.add_assoc, ih]
    cases readLine number raw with
    | error fault => rfl
    | ok first =>
      cases readLines (number + 1) rest with
      | error fault => rfl
      | ok later => exact congrArg Except.ok (List.map_append).symm

theorem linesAppend (number : Nat) (front back : List (List Char)) :
    readLines number (front ++ back) = do
      let first ← readLines number front
      let later ← readLines (number + front.length) back
      return first ++ later := by
  induction front generalizing number with
  | nil => exact (bind_pure _).symm
  | cons raw rest ih =>
    have further : number + 1 + rest.length = number + (raw :: rest).length := by
      rw [List.length_cons, Nat.add_assoc, Nat.add_comm 1]
    rw [List.cons_append, readLines, readLines, ih, further]
    simp only [bind_assoc, pure_bind, List.append_assoc]

theorem linesReturn (number : Nat) (front : List (List Char)) (last : List Char) :
    readLines number (front ++ [Text.dropReturn last]) = readLines number (front ++ [last]) := by
  have same (number : Nat) : readLine number (Text.dropReturn last) = readLine number last := by
    unfold readLine
    rw [Text.trimReturn]
  simp only [linesAppend, readLines, same]

theorem readsAppended {front : String}
    (whole : front = "" ∨ front.toList.getLast? = some '\n') (rest : String) :
    readLines 1 (Text.lines (front ++ rest).toList) = do
      let first ← readLines 1 (Text.lines front.toList)
      let later ← lowered (Text.lines front.toList).length (readLines 1 (Text.lines rest.toList))
      return first ++ later := by
  rw [String.toList_append, Text.linesPast, linesAppend, Nat.add_comm, linesBelow]
  rcases whole with rfl | closed
  · exact .inl rfl
  · exact .inr closed

theorem readsJoined :
    (∀ front rest : String, front = "" ∨ front.toList.getLast? = some '\n' →
      (∀ fault, read front = .error fault → read (front ++ rest) = .error fault) ∧
      (∀ program fault, read front = .ok program → read rest = .error fault →
        read (front ++ rest) = .error (fault.below (Text.lines front.toList).length)) ∧
      ∀ program later, read front = .ok program → read rest = .ok later →
        read (front ++ rest) =
          .ok (program ++ later.map (Statement.below (Text.lines front.toList).length))) ∧
    ∀ source : String, source ≠ "" → source.toList.getLast? ≠ some '\n' →
      read (source ++ "\n") = read source := by
  refine ⟨fun front rest whole => ⟨?_, ?_, ?_⟩, fun source full unclosed => ?_⟩
  · intro fault refused
    rw [readError] at refused ⊢
    rw [readsAppended whole, refused]
    rfl
  · intro program fault parsed refused
    rw [readOk] at parsed
    rw [readError] at refused ⊢
    rw [readsAppended whole, parsed, refused]
    rfl
  · intro program later parsed other
    rw [readOk] at parsed other ⊢
    rw [readsAppended whole, parsed, other]
    simp [lowered, Except.mapError, Except.map, bind, Except.bind, pure, Except.pure]
  · have some : source.toList ≠ [] := by simpa using full
    obtain ⟨front, last, same, closed⟩ := Text.linesUnclosed some unclosed
    have ended : (source ++ "\n").toList = source.toList ++ ['\n'] := String.toList_append
    rw [readForms, readForms, ended, closed, same, linesReturn]

def upper : String := "clear x;\nwhile x not 1 do;\r\n"

def lower : String := "incr x;end;\r"

theorem upperJoined :
    let first : Program := #[⟨"clear x", "clear x;", 1, .act .clear "x"⟩,
      ⟨"while x not 1 do", "while x not 1 do;", 2, .loop "x" (.literal 1)⟩]
    let second : Program := #[⟨"incr x", "incr x;end;", 1, .act .incr "x"⟩,
      ⟨"end", "incr x;end;", 1, .close⟩]
    upper.toList.getLast? = some '\n' ∧ read upper = .ok first ∧ read lower = .ok second ∧
      read "end;\n;" = .error ⟨2, ";", .emptyStatement⟩ ∧
      read "\r\n" = .error ⟨1, "", .missingTerminator⟩ ∧
      read (upper ++ lower) = .ok (first ++ second.map (Statement.below 2)) ∧
      read (upper ++ "end;\n;") = .error ⟨4, ";", .emptyStatement⟩ ∧
      read ("\r\n" ++ lower) = .error ⟨1, "", .missingTerminator⟩ ∧
      lower ≠ "" ∧ lower.toList.getLast? ≠ some '\n' ∧ read (lower ++ "\n") = read lower := by
  intro first second
  have closed : upper.toList.getLast? = some '\n' := by decide
  have above : read upper = .ok first := by decide
  have below : read lower = .ok second := by decide
  have torn : read "end;\n;" = .error ⟨2, ";", .emptyStatement⟩ := by decide
  have blank : read "\r\n" = .error ⟨1, "", .missingTerminator⟩ := by decide
  have full : lower ≠ "" := by decide
  have unclosed : lower.toList.getLast? ≠ some '\n' := by decide
  obtain ⟨joined, ended⟩ := readsJoined
  exact ⟨closed, above, below, torn, blank,
    (joined upper lower (.inr closed)).2.2 first second above below,
    (joined upper "end;\n;" (.inr closed)).2.1 first _ above torn,
    (joined "\r\n" lower (.inr (by decide))).1 _ blank,
    full, unclosed, ended lower full unclosed⟩

end Source
end CounterLang
