import CounterLang.Proofs.Brackets

/-! The scan for a closing position, by counting. It stops at the closing statement that
balanced statements lead up to, and what stands behind makes no difference; so a body is
the same in whatever part of the program it is looked for, and each loop inside of it ends
inside of it. -/
namespace CounterLang.Nesting

structure ClosesAt (statements : List Statement) (position : Nat) : Prop where
  closes : ∃ close, statements[position]? = some close ∧ close.closes = true
  before : Balanced (statements.take position)

/- The scan with a counter that could go below zero. Besides the position it gives the values
that the counter has had, the first one before any statement is looked at. -/
def tally (depth : Int) (offset : Nat) : List Statement → List Int × Option Nat
  | [] => ([depth], none)
  | statement :: rest =>
    if statement.opens then (tally (depth + 1) (offset + 1) rest).map (depth :: ·) id
    else if statement.closes then
      if depth = 0 then ([depth], some offset)
      else (tally (depth - 1) (offset + 1) rest).map (depth :: ·) id
    else (tally depth (offset + 1) rest).map (depth :: ·) id

structure Counted (statements : List Statement) : Prop where
  scan : (tally 0 0 statements).2 = closing? statements
  values : ∀ place, place ≤ (closing? statements).getD statements.length →
    (tally 0 0 statements).1[place]? =
      some (openings (statements.take place) - closings (statements.take place) : Int)
  never : ∀ value ∈ (tally 0 0 statements).1, 0 ≤ value

structure Delimits (statements : List Statement) (position : Nat) : Prop where
  longer : ∀ more, closing? (statements ++ more) = some position
  reached : ∀ stop, position < stop → closing? (statements.take stop) = some position
  missed : ∀ stop, stop ≤ position → closing? (statements.take stop) = none
  inner : ∀ head statement, statements[head]? = some statement → statement.opens = true →
    head < position → ∃ length,
      closing? ((statements.take position).drop (head + 1)) = some length ∧
        head + 1 + length < position

theorem closingAt {statements : List Statement} {position : Nat} :
    closing? statements = some position ↔ ClosesAt statements position := by
  rw [closingSome]
  apply Iff.intro
  · rintro ⟨body, close, rest, rfl, closes, level, rfl⟩
    refine ⟨⟨close, by simp, closes⟩, balancedLevel.mpr ?_⟩
    rw [List.take_left]
    exact level
  · intro ⟨⟨close, found, closes⟩, before⟩
    obtain ⟨bound, same⟩ := List.getElem?_eq_some_iff.mp found
    refine ⟨statements.take position, close, statements.drop (position + 1), ?_, closes,
      balancedLevel.mp before, List.length_take_of_le (Nat.le_of_lt bound)⟩
    rw [← same, List.getElem_cons_drop, List.take_append_drop]

theorem closesOnce {statements : List Statement} {first second : Nat}
    (left : ClosesAt statements first) (right : ClosesAt statements second) : first = second :=
  Option.some.inj ((closingAt.mpr left).symm.trans (closingAt.mpr right))

theorem closingAbsent {statements : List Statement} :
    closing? statements = none ↔ ∀ part, part <+: statements → closings part ≤ openings part := by
  simp only [closingNone, levelCounts, Nat.zero_add]
  apply Iff.intro
  · intro ⟨_, parts, _⟩
    exact parts
  · intro parts
    have whole := parts statements List.prefix_rfl
    exact ⟨openings statements - closings statements, parts, Nat.sub_add_cancel whole⟩

theorem tallyStep (statement : Statement) (depth offset : Nat) (rest : List Statement) :
    (tally depth offset (statement :: rest) = ([(depth : Int)], some offset) ∧
        closingFrom depth offset (statement :: rest) = some offset) ∨
      ∃ next : Nat, (next : Int) = depth + openings [statement] - closings [statement] ∧
        tally depth offset (statement :: rest) =
          (tally next (offset + 1) rest).map ((depth : Int) :: ·) id ∧
        closingFrom depth offset (statement :: rest) = closingFrom next (offset + 1) rest := by
  rcases kindOf statement with ⟨opens, closes⟩ | ⟨opens, closes⟩ | ⟨opens, closes⟩
  · refine .inr ⟨depth + 1, by simp [openings, closings, opens, closes], ?_, ?_⟩
    · simp only [tally, opens, if_true, Int.natCast_add, Int.cast_ofNat_Int]
    · simp only [closingFrom, opens, if_true]
  · cases depth with
    | zero =>
      refine .inl ⟨?_, ?_⟩
      · simp only [tally, opens, closes, Int.natCast_zero, Bool.false_eq_true, if_false, if_true]
      · simp only [closingFrom, opens, closes, Bool.false_eq_true, if_false, if_true]
    | succ depth =>
      have inside : ((depth + 1 : Nat) : Int) ≠ 0 := by omega
      have down : ((depth + 1 : Nat) : Int) - 1 = depth := by omega
      refine .inr ⟨depth, by simp [openings, closings, opens, closes], ?_, ?_⟩
      · simp only [tally, opens, closes, inside, down, Bool.false_eq_true, if_false, if_true]
      · simp only [closingFrom, opens, closes, Bool.false_eq_true, if_false, if_true]
  · refine .inr ⟨depth, by simp [openings, closings, opens, closes], ?_, ?_⟩
    · simp only [tally, opens, closes, Bool.false_eq_true, if_false]
    · simp only [closingFrom, opens, closes, Bool.false_eq_true, if_false]

theorem tallyScan (depth offset : Nat) (statements : List Statement) :
    (tally depth offset statements).2 = closingFrom depth offset statements := by
  induction statements generalizing depth offset with
  | nil => rfl
  | cons statement rest ih =>
    rcases tallyStep statement depth offset rest with ⟨stops, found⟩ | ⟨next, _, goes, same⟩
    · rw [stops, found]
    · rw [goes, same]
      exact ih next (offset + 1)

theorem tallyNever (depth offset : Nat) (statements : List Statement) :
    ∀ value ∈ (tally depth offset statements).1, 0 ≤ value := by
  induction statements generalizing depth offset with
  | nil => exact List.forall_mem_singleton.mpr (Int.natCast_nonneg depth)
  | cons statement rest ih =>
    rcases tallyStep statement depth offset rest with ⟨stops, _⟩ | ⟨next, _, goes, _⟩
    · rw [stops]
      exact List.forall_mem_singleton.mpr (Int.natCast_nonneg depth)
    · rw [goes]
      exact List.forall_mem_cons.mpr ⟨Int.natCast_nonneg depth, ih next (offset + 1)⟩

theorem tallyFirst (depth : Int) (offset : Nat) (statements : List Statement) :
    (tally depth offset statements).1[0]? = some depth := by
  cases statements with
  | nil => rfl
  | cons statement rest =>
    unfold tally
    split
    · rfl
    · split
      · split <;> rfl
      · rfl

theorem tallyValues (depth offset : Nat) (statements : List Statement) (place : Nat)
    (looked : offset + place ≤
      (closingFrom depth offset statements).getD (offset + statements.length)) :
    (tally depth offset statements).1[place]? =
      some (depth + openings (statements.take place) - closings (statements.take place) : Int) := by
  induction statements generalizing depth offset place with
  | nil =>
    have first : place = 0 := by
      simp only [closingFrom, Option.getD_none, List.length_nil] at looked
      omega
    subst first
    simp [tally, openings, closings]
  | cons statement rest ih =>
    cases place with
    | zero =>
      rw [tallyFirst]
      simp [openings, closings]
    | succ place =>
      have shift (more : Nat) : offset + (more + 1) = offset + 1 + more := by omega
      rcases tallyStep statement depth offset rest with ⟨_, found⟩ | ⟨next, step, goes, same⟩
      · rw [found, Option.getD_some] at looked
        omega
      · rw [same, List.length_cons, shift place, shift rest.length] at looked
        have further := ih next (offset + 1) place looked
        have behind : (tally depth offset (statement :: rest)).1[place + 1]? =
            (tally next (offset + 1) rest).1[place]? := by
          rw [goes]
          rfl
        rw [behind, further, List.take_succ_cons, Option.some.injEq]
        simp only [openings, closings, List.countP_cons, List.countP_nil] at step ⊢
        omega

theorem scanCounted (statements : List Statement) : Counted statements where
  scan := tallyScan 0 0 statements
  values place looked := by
    have here := tallyValues 0 0 statements place (by simpa [closing?] using looked)
    simpa using here
  never := tallyNever 0 0 statements

theorem closingInner {statements : List Statement} {position head : Nat} {statement : Statement}
    (before : Balanced (statements.take position)) (found : statements[head]? = some statement)
    (opens : statement.opens = true) (inside : head < position) :
    ∃ length, closing? ((statements.take position).drop (head + 1)) = some length ∧
      head + 1 + length < position := by
  have level := balancedLevel.mp before
  have stands : (statements.take position)[head]? = some statement := by
    rw [List.getElem?_take_of_lt inside, found]
  obtain ⟨bound, same⟩ := List.getElem?_eq_some_iff.mp stands
  rw [← List.take_append_drop head (statements.take position), List.drop_eq_getElem_cons bound,
    same, levelAppend, Option.bind_eq_some_iff] at level
  obtain ⟨outer, _, level⟩ := level
  rw [levelOpens opens] at level
  obtain ⟨length, closed⟩ := closingFound level
  obtain ⟨body, close, rest, whole, _, _, size⟩ := closingSome.mp closed
  refine ⟨length, closed, ?_⟩
  have total := congrArg List.length whole
  rw [List.length_drop, List.length_append, List.length_cons] at total
  have short : (statements.take position).length ≤ position := List.length_take_le ..
  omega

theorem closingDelimits {statements : List Statement} {position : Nat}
    (found : closing? statements = some position) : Delimits statements position := by
  obtain ⟨⟨close, stands, closes⟩, before⟩ := closingAt.mp found
  refine ⟨closingLocal found, fun stop behind => ?_, fun stop ahead => ?_,
    fun head statement here opens inside => closingInner before here opens inside⟩
  · rw [closingAt]
    refine ⟨⟨close, by rw [List.getElem?_take_of_lt behind, stands], closes⟩, ?_⟩
    rw [List.take_take, Nat.min_eq_left (Nat.le_of_lt behind)]
    exact before
  · rw [closingAbsent]
    intro part initial
    have within : statements.take stop <+: statements.take position :=
      List.take_prefix_take_left ahead
    exact before.initial part (initial.trans within)

theorem scanDecides (statements : List Statement) :
    (∀ position, closing? statements = some position ↔ ClosesAt statements position) ∧
    (∀ first second, ClosesAt statements first → ClosesAt statements second → first = second) ∧
    (closing? statements = none ↔
      ∀ part, part <+: statements → closings part ≤ openings part) ∧
    Counted statements ∧
    ∀ position, closing? statements = some position → Delimits statements position :=
  ⟨fun _ => closingAt, fun _ _ => closesOnce, closingAbsent, scanCounted statements,
    fun _ => closingDelimits⟩

def crippled : List Statement :=
  [⟨"incr a", "incr a;", 1, .act .incr "a"⟩,
    ⟨"while", "while;", 2, .malformed .loop .missingArgument⟩,
    ⟨"decr b", "decr b;", 3, .act .decr "b"⟩,
    ⟨"end", "end;", 4, .malformed .close (.tooMany 2)⟩,
    ⟨"end", "end;", 5, .close⟩,
    ⟨"end", "end;", 6, .close⟩]

theorem crippledDelimited : closing? crippled = some 4 ∧ Delimits crippled 4 ∧
    (tally 0 0 crippled).1 = [0, 0, 1, 1, 0] := by
  have found : closing? crippled = some 4 := by decide
  exact ⟨found, (scanDecides crippled).2.2.2.2 4 found, by decide⟩

end CounterLang.Nesting
