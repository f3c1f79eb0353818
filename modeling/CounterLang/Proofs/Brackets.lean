import CounterLang.Machine

/-! Bracket structure of lists of statements. Balance is said by counting; a running
level says the same one statement at a time, and the scan for a closing position
is decided by it. The scan looks no further than the position it finds. -/
namespace CounterLang
namespace Nesting

def openings (statements : List Statement) : Nat := statements.countP Statement.opens

def closings (statements : List Statement) : Nat := statements.countP Statement.closes

structure Balanced (statements : List Statement) : Prop where
  initial : ∀ part, part <+: statements → closings part ≤ openings part
  whole : openings statements = closings statements

/- The number of blocks that are open after the statements when some are open
before. There is none when a closing statement has no block to close. -/
def level? : Nat → List Statement → Option Nat
  | depth, [] => some depth
  | depth, statement :: rest =>
    if statement.opens then level? (depth + 1) rest
    else if statement.closes then
      match depth with
      | 0 => none
      | depth + 1 => level? depth rest
    else level? depth rest

theorem kindOf (statement : Statement) :
    (statement.opens = true ∧ statement.closes = false) ∨
      (statement.opens = false ∧ statement.closes = true) ∨
      (statement.opens = false ∧ statement.closes = false) := by
  cases opens : statement.opens with
  | true => exact .inl ⟨rfl, Instruction.closesNotOpens opens⟩
  | false => cases statement.closes <;> simp

theorem opensNotCloses {statement : Statement} (h : statement.closes = true) :
    statement.opens = false := by
  rcases kindOf statement with ⟨_, no⟩ | ⟨no, _⟩ | ⟨no, _⟩
  · rw [h] at no
    contradiction
  · exact no
  · exact no

theorem levelOpens {statement : Statement} (h : statement.opens = true) (depth : Nat)
    (rest : List Statement) : level? depth (statement :: rest) = level? (depth + 1) rest := by
  simp only [level?, h, if_true]

theorem levelCloses {statement : Statement} (h : statement.closes = true) (depth : Nat)
    (rest : List Statement) : level? (depth + 1) (statement :: rest) = level? depth rest := by
  simp only [level?, opensNotCloses h, h, Bool.false_eq_true, if_false, if_true]

theorem levelStray {statement : Statement} (h : statement.closes = true)
    (rest : List Statement) : level? 0 (statement :: rest) = none := by
  simp only [level?, opensNotCloses h, h, Bool.false_eq_true, if_false, if_true]

theorem levelSimple {statement : Statement} (opens : statement.opens = false)
    (closes : statement.closes = false) (depth : Nat) (rest : List Statement) :
    level? depth (statement :: rest) = level? depth rest := by
  simp only [level?, opens, closes, Bool.false_eq_true, if_false]

theorem levelAppend (depth : Nat) (front back : List Statement) :
    level? depth (front ++ back) = (level? depth front).bind fun inner => level? inner back := by
  induction front generalizing depth with
  | nil => rfl
  | cons statement rest ih =>
    rw [List.cons_append]
    rcases kindOf statement with ⟨opens, _⟩ | ⟨_, closes⟩ | ⟨opens, closes⟩
    · rw [levelOpens opens, levelOpens opens, ih]
    · cases depth with
      | zero => rw [levelStray closes, levelStray closes]; rfl
      | succ depth => rw [levelCloses closes, levelCloses closes, ih]
    · rw [levelSimple opens closes, levelSimple opens closes, ih]

theorem levelRaise {depth inner : Nat} {statements : List Statement}
    (h : level? depth statements = some inner) (more : Nat) :
    level? (depth + more) statements = some (inner + more) := by
  induction statements generalizing depth with
  | nil => cases h; rfl
  | cons statement rest ih =>
    rcases kindOf statement with ⟨opens, _⟩ | ⟨_, closes⟩ | ⟨opens, closes⟩
    · rw [levelOpens opens] at h ⊢
      rw [Nat.add_right_comm]
      exact ih h
    · cases depth with
      | zero => rw [levelStray closes] at h; contradiction
      | succ depth =>
        rw [levelCloses closes] at h
        rw [Nat.add_right_comm, levelCloses closes]
        exact ih h
    · rw [levelSimple opens closes] at h ⊢
      exact ih h

theorem prefixesCons {property : List Statement → Prop} {statement : Statement}
    {rest : List Statement} :
    (∀ part, part <+: statement :: rest → property part) ↔
      property [] ∧ ∀ part, part <+: rest → property (statement :: part) := by
  apply Iff.intro
  · intro h
    exact ⟨h [] List.nil_prefix, fun part initial =>
      h _ ((List.prefix_cons_inj statement).mpr initial)⟩
  · intro ⟨empty, longer⟩ part initial
    rcases List.prefix_cons_iff.mp initial with same | ⟨part, same, initial⟩
    · exact same ▸ empty
    · exact same ▸ longer part initial

theorem levelCounts {depth inner : Nat} {statements : List Statement} :
    level? depth statements = some inner ↔
      (∀ part, part <+: statements → closings part ≤ depth + openings part) ∧
        inner + closings statements = depth + openings statements := by
  induction statements generalizing depth with
  | nil =>
    simp only [level?, Option.some.injEq, List.prefix_nil, forall_eq, openings, closings,
      List.countP_nil]
    omega
  | cons statement rest ih =>
    rw [prefixesCons]
    simp only [openings, closings, List.countP_cons, List.countP_nil] at ih ⊢
    rcases kindOf statement with ⟨opens, closes⟩ | ⟨opens, closes⟩ | ⟨opens, closes⟩
    · rw [levelOpens opens, ih]
      simp only [opens, closes, if_true, Bool.false_eq_true, if_false]
      apply Iff.intro
      · intro ⟨parts, whole⟩
        exact ⟨⟨by omega, fun part initial => by have := parts part initial; omega⟩, by omega⟩
      · intro ⟨⟨_, parts⟩, whole⟩
        exact ⟨fun part initial => by have := parts part initial; omega, by omega⟩
    · simp only [opens, closes, if_true, Bool.false_eq_true, if_false]
      cases depth with
      | zero =>
        rw [levelStray closes]
        apply Iff.intro
        · intro h
          contradiction
        · intro ⟨⟨_, parts⟩, _⟩
          have alone := parts [] List.nil_prefix
          simp at alone
      | succ depth =>
        rw [levelCloses closes, ih]
        apply Iff.intro
        · intro ⟨parts, whole⟩
          exact ⟨⟨by omega, fun part initial => by have := parts part initial; omega⟩, by omega⟩
        · intro ⟨⟨_, parts⟩, whole⟩
          exact ⟨fun part initial => by have := parts part initial; omega, by omega⟩
    · rw [levelSimple opens closes, ih]
      simp only [opens, closes, Bool.false_eq_true, if_false]
      apply Iff.intro
      · intro ⟨parts, whole⟩
        exact ⟨⟨by omega, parts⟩, whole⟩
      · intro ⟨⟨_, parts⟩, whole⟩
        exact ⟨parts, whole⟩

theorem balancedLevel {statements : List Statement} :
    Balanced statements ↔ level? 0 statements = some 0 := by
  rw [levelCounts]
  simp only [Nat.zero_add]
  apply Iff.intro
  · intro h
    exact ⟨h.initial, h.whole.symm⟩
  · intro ⟨parts, whole⟩
    exact ⟨parts, whole.symm⟩

instance (statements : List Statement) : Decidable (Balanced statements) :=
  decidable_of_iff _ balancedLevel.symm

theorem closingFromLevel {depth inner : Nat} {front : List Statement}
    (h : level? depth front = some inner) (offset : Nat) (back : List Statement) :
    closingFrom depth offset (front ++ back) =
      closingFrom inner (offset + front.length) back := by
  induction front generalizing depth offset with
  | nil => cases h; rfl
  | cons statement rest ih =>
    have shift : offset + (statement :: rest).length = offset + 1 + rest.length := by
      simp only [List.length_cons]
      omega
    rw [shift, List.cons_append]
    rcases kindOf statement with ⟨opens, _⟩ | ⟨opens, closes⟩ | ⟨opens, closes⟩
    · rw [levelOpens opens] at h
      simp only [closingFrom, opens, if_true]
      exact ih h (offset + 1)
    · cases depth with
      | zero => rw [levelStray closes] at h; contradiction
      | succ depth =>
        rw [levelCloses closes] at h
        simp only [closingFrom, opens, closes, Bool.false_eq_true, if_false, if_true]
        exact ih h (offset + 1)
    · rw [levelSimple opens closes] at h
      simp only [closingFrom, opens, closes, Bool.false_eq_true, if_false]
      exact ih h (offset + 1)

theorem closingAfter {body : List Statement} {close : Statement} (level : level? 0 body = some 0)
    (closes : close.closes = true) (rest : List Statement) :
    closing? (body ++ close :: rest) = some body.length := by
  unfold closing?
  rw [closingFromLevel level]
  simp only [closingFrom, opensNotCloses closes, closes, Bool.false_eq_true, if_false, if_true,
    Nat.zero_add]

theorem closingNever {statements : List Statement} {inner : Nat}
    (h : level? 0 statements = some inner) : closing? statements = none := by
  have all := closingFromLevel h 0 []
  rw [List.append_nil] at all
  exact all

theorem levelBlock {head close : Statement} {body : List Statement} (opens : head.opens = true)
    (level : level? 0 body = some 0) (closes : close.closes = true) (depth : Nat)
    (rest : List Statement) :
    level? depth (head :: (body ++ close :: rest)) = level? depth rest := by
  have raised := levelRaise level (depth + 1)
  rw [Nat.zero_add] at raised
  rw [levelOpens opens, levelAppend, raised, Option.bind_some, levelCloses closes]

theorem levelOrBreak (depth : Nat) (statements : List Statement) :
    (∃ inner, level? depth statements = some inner) ∨
      ∃ body close rest, statements = body ++ close :: rest ∧ close.closes = true ∧
        level? depth body = some 0 := by
  induction statements generalizing depth with
  | nil => exact .inl ⟨depth, rfl⟩
  | cons statement rest ih =>
    rcases kindOf statement with ⟨opens, _⟩ | ⟨_, closes⟩ | ⟨opens, closes⟩
    · rcases ih (depth + 1) with ⟨inner, level⟩ | ⟨body, close, after, same, closes, level⟩
      · exact .inl ⟨inner, by rw [levelOpens opens]; exact level⟩
      · exact .inr ⟨statement :: body, close, after, by rw [same]; rfl, closes,
          by rw [levelOpens opens]; exact level⟩
    · cases depth with
      | zero => exact .inr ⟨[], statement, rest, rfl, closes, rfl⟩
      | succ depth =>
        rcases ih depth with ⟨inner, level⟩ | ⟨body, close, after, same, other, level⟩
        · exact .inl ⟨inner, by rw [levelCloses closes]; exact level⟩
        · exact .inr ⟨statement :: body, close, after, by rw [same]; rfl, other,
            by rw [levelCloses closes]; exact level⟩
    · rcases ih depth with ⟨inner, level⟩ | ⟨body, close, after, same, other, level⟩
      · exact .inl ⟨inner, by rw [levelSimple opens closes]; exact level⟩
      · exact .inr ⟨statement :: body, close, after, by rw [same]; rfl, other,
          by rw [levelSimple opens closes]; exact level⟩

theorem closingSome {statements : List Statement} {length : Nat} :
    closing? statements = some length ↔
      ∃ body close rest, statements = body ++ close :: rest ∧ close.closes = true ∧
        level? 0 body = some 0 ∧ body.length = length := by
  apply Iff.intro
  · intro h
    rcases levelOrBreak 0 statements with ⟨inner, level⟩ | ⟨body, close, rest, same, closes, level⟩
    · rw [closingNever level] at h
      contradiction
    · rw [same, closingAfter level closes] at h
      exact ⟨body, close, rest, same, closes, level, Option.some.inj h⟩
  · intro ⟨body, close, rest, same, closes, level, length⟩
    rw [same, closingAfter level closes, length]

theorem closingNone {statements : List Statement} :
    closing? statements = none ↔ ∃ inner, level? 0 statements = some inner := by
  apply Iff.intro
  · intro h
    rcases levelOrBreak 0 statements with kept | ⟨body, close, rest, same, closes, level⟩
    · exact kept
    · rw [same, closingAfter level closes] at h
      contradiction
  · intro ⟨inner, level⟩
    exact closingNever level

theorem closingFound {statements : List Statement} {depth : Nat}
    (level : level? (depth + 1) statements = some 0) :
    ∃ length, closing? statements = some length := by
  cases found : closing? statements with
  | some length => exact ⟨length, rfl⟩
  | none =>
    obtain ⟨inner, kept⟩ := closingNone.mp found
    have raised := levelRaise kept (depth + 1)
    rw [Nat.zero_add, level] at raised
    cases Option.some.inj raised

theorem closingLocal {statements : List Statement} {length : Nat}
    (h : closing? statements = some length) (more : List Statement) :
    closing? (statements ++ more) = some length := by
  obtain ⟨body, close, rest, same, closes, level, size⟩ := closingSome.mp h
  rw [same, List.append_assoc, List.cons_append, closingAfter level closes, size]

theorem betweenSpan (program : Program) (start stop : Nat) :
    between program start stop = (program.toList.drop start).take (stop - start) := by
  rw [between, Array.toList_extract, List.extract_eq_take_drop]

theorem betweenAppend (program : Program) {start middle stop : Nat} (first : start ≤ middle)
    (second : middle ≤ stop) :
    between program start middle ++ between program middle stop = between program start stop := by
  have length : stop - start = middle - start + (stop - middle) := by omega
  have back : program.toList.drop middle = (program.toList.drop start).drop (middle - start) := by
    rw [List.drop_drop]
    congr 1
    omega
  simp only [betweenSpan, length, List.take_add, back]

theorem betweenSelf (program : Program) (position : Nat) : between program position position = [] := by
  rw [betweenSpan, Nat.sub_self, List.take_zero]

theorem betweenOne {program : Program} {position : Nat} {statement : Statement}
    (found : program[position]? = some statement) :
    between program position (position + 1) = [statement] := by
  rw [← Array.getElem?_toList] at found
  obtain ⟨bound, same⟩ := List.getElem?_eq_some_iff.mp found
  rw [betweenSpan, Nat.add_sub_cancel_left, List.drop_eq_getElem_cons bound, same]
  rfl

theorem betweenSnoc {program : Program} {start stop : Nat} {statement : Statement}
    (order : start ≤ stop) (found : program[stop]? = some statement) :
    between program start (stop + 1) = between program start stop ++ [statement] := by
  rw [← betweenAppend program order (Nat.le_succ stop), betweenOne found]

theorem betweenCons {program : Program} {start stop : Nat} {statement : Statement}
    (order : start < stop) (found : program[start]? = some statement) :
    between program start stop = statement :: between program (start + 1) stop := by
  rw [← betweenAppend program (Nat.le_succ start) order, betweenOne found]
  rfl

theorem betweenFirst (program : Program) (stop : Nat) :
    between program 0 stop = program.toList.take stop := by
  rw [betweenSpan, List.drop_zero, Nat.sub_zero]

theorem betweenLast (program : Program) (start : Nat) :
    between program start program.size = program.toList.drop start := by
  rw [betweenSpan]
  apply List.take_of_length_le
  simp

theorem betweenLength {program : Program} {start stop : Nat} (bound : stop ≤ program.size) :
    (between program start stop).length = stop - start := by
  rw [betweenSpan, List.length_take, List.length_drop, Array.length_toList]
  omega

theorem openInside {program : Program} {start head cursor close : Nat} {statement : Statement}
    (found : program[head]? = some statement) (opens : statement.opens = true)
    (body : level? 0 (between program (head + 1) close) = some 0) (order : start ≤ head)
    (after : head < cursor) (inside : cursor ≤ close) :
    level? 0 (between program start cursor) ≠ some 0 := by
  intro level
  rw [← betweenAppend program after inside, levelAppend, Option.bind_eq_some_iff] at body
  obtain ⟨inner, body, _⟩ := body
  rw [← betweenAppend program order (Nat.le_of_lt after), betweenCons after found, levelAppend,
    Option.bind_eq_some_iff] at level
  obtain ⟨outer, _, level⟩ := level
  have raised := levelRaise body (outer + 1)
  rw [Nat.zero_add, ← levelOpens opens, level] at raised
  cases Option.some.inj raised

end Nesting
end CounterLang
