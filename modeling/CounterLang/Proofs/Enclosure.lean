import Mathlib.Data.Finset.Lattice.Fold
import Mathlib.Data.Finset.Range
import Mathlib.Data.List.Sort
import Mathlib.Order.Lattice.Nat
import CounterLang.Proofs.Blocks
import CounterLang.Proofs.OpenLoops

/-! The loops around a position, by brackets alone. An opening and a closing statement
match when what stands between them is balanced, and a position lies in the loops whose
brackets stand around it. The open loops of a running machine are exactly these. -/
namespace CounterLang
namespace Nesting

structure Matched (program : Program) (head close : Nat) : Prop where
  order : head < close
  opens : ∃ statement, program[head]? = some statement ∧ statement.opens = true
  body : Balanced (between program (head + 1) close)
  closes : ∃ statement, program[close]? = some statement ∧ statement.closes = true

def matching? (program : Program) (head : Nat) : Option Nat :=
  match program[head]? with
  | some statement =>
    if statement.opens then
      (closing? (between program (head + 1) program.size)).map (head + 1 + ·)
    else none
  | none => none

theorem matchingSome {program : Program} {head close : Nat} :
    matching? program head = some close ↔ Matched program head close := by
  apply Iff.intro
  · intro h
    unfold matching? at h
    split at h <;> try contradiction
    rename_i statement found
    split at h <;> try contradiction
    rename_i opens
    obtain ⟨length, closed, same⟩ := Option.map_eq_some_iff.mp h
    have whole := Nat.le_refl (Machine.blockEnd program [])
    obtain ⟨_, body, closes⟩ := Machine.bodyPlaced whole closed
    subst close
    exact ⟨by omega, ⟨statement, found, opens⟩, balancedLevel.mpr body, closes⟩
  · intro ⟨order, ⟨statement, found, opens⟩, body, ⟨other, last, closes⟩⟩
    obtain ⟨bound, _⟩ := Array.getElem?_eq_some_iff.mp last
    have whole := betweenAppend program order (Nat.le_of_lt bound)
    rw [betweenCons bound last] at whole
    have closed := closingAfter (balancedLevel.mp body) closes
      (between program (close + 1) program.size)
    rw [whole, betweenLength (Nat.le_of_lt bound)] at closed
    simp only [matching?, found, opens, closed, if_true, Option.map_some, Option.some.injEq]
    omega

theorem matchedOnce {program : Program} {head close other : Nat}
    (left : Matched program head close) (right : Matched program head other) : close = other := by
  have both := matchingSome.mpr left
  rw [matchingSome.mpr right] at both
  exact (Option.some.inj both).symm

def Contains (program : Program) (head index : Nat) : Prop :=
  head < index ∧ ∃ close, Matched program head close ∧ index < close

instance (program : Program) (head index : Nat) : Decidable (Contains program head index) :=
  decidable_of_iff (head < index ∧ ∃ close ∈ matching? program head, index < close) (by
    simp only [Option.mem_def, matchingSome, Contains])

def enclosing (program : Program) (index : Nat) : List Nat :=
  (List.range index).filter fun head => Contains program head index

def owner? (program : Program) (index : Nat) : Option Nat := (enclosing program index).getLast?

def heads (program : Program) : Finset Nat :=
  (Finset.range program.size).filter fun head => (matching? program head).isSome

theorem enclosingMem {program : Program} {head index : Nat} :
    head ∈ enclosing program index ↔ Contains program head index := by
  simp only [enclosing, List.mem_filter, List.mem_range, decide_eq_true_eq]
  exact ⟨And.right, fun h => ⟨h.1, h⟩⟩

theorem enclosingSorted (program : Program) (index : Nat) :
    (enclosing program index).Pairwise (· < ·) :=
  List.Pairwise.filter _ List.pairwise_lt_range

theorem headsMem {program : Program} {head : Nat} :
    head ∈ heads program ↔ ∃ close, Matched program head close := by
  simp only [heads, Finset.mem_filter, Finset.mem_range, Option.isSome_iff_exists, matchingSome,
    and_iff_right_iff_imp]
  intro ⟨close, matched⟩
  obtain ⟨_, found, _⟩ := matched.opens
  exact (Array.getElem?_eq_some_iff.mp found).1

theorem ownerInnermost {program : Program} {head index : Nat}
    (contains : Contains program head index) :
    ∃ inner, owner? program index = some inner ∧ head ≤ inner := by
  have member := enclosingMem.mpr contains
  have sorted := enclosingSorted program index
  cases last : owner? program index with
  | none =>
    rw [List.getLast?_eq_none_iff.mp last] at member
    contradiction
  | some inner =>
    obtain ⟨front, whole⟩ := List.getLast?_eq_some_iff.mp last
    rw [whole] at member sorted
    refine ⟨inner, rfl, ?_⟩
    rcases List.mem_append.mp member with earlier | same
    · exact Nat.le_of_lt ((List.pairwise_append.mp sorted).2.2 head earlier inner (by simp))
    · exact Nat.le_of_eq (List.mem_singleton.mp same)

theorem ownerContains {program : Program} {head index : Nat}
    (owned : owner? program index = some head) : Contains program head index :=
  enclosingMem.mp (List.mem_of_getLast? owned)

theorem levelInnermost {statements : List Statement} {depth : Nat}
    (level : level? 0 statements = some (depth + 1)) :
    ∃ before head body, statements = before ++ head :: body ∧ head.opens = true ∧
      level? 0 body = some 0 := by
  obtain ⟨block, remainder, sound, whole, stuck⟩ := Block.splitsSome statements
  rw [← whole, levelAppend, Block.soundLevel sound, Option.bind_some] at level
  cases remainder with
  | nil => cases Option.some.inj level
  | cons head rest =>
    rcases stuck with closes | ⟨opens, unmatched⟩
    · rw [levelStray closes] at level
      contradiction
    · obtain ⟨inner, kept⟩ := closingNone.mp (unmatchedClosing.mp unmatched)
      cases inner with
      | zero => exact ⟨block.flatten, head, rest, whole.symm, opens, kept⟩
      | succ inner =>
        have shorter : rest.length < statements.length := by
          rw [← whole, List.length_append, List.length_cons]
          omega
        obtain ⟨before, other, body, same, opens, balanced⟩ := levelInnermost kept
        refine ⟨block.flatten ++ head :: before, other, body, ?_, opens, balanced⟩
        rw [← whole, same, List.append_assoc]
        rfl
termination_by statements.length

theorem containsBefore {program : Program} {start head index : Nat}
    (level : level? 0 (between program start index) = some 0)
    (contains : Contains program head index) : ¬ start ≤ head := by
  intro order
  obtain ⟨after, close, matched, inside⟩ := contains
  obtain ⟨statement, found, opens⟩ := matched.opens
  have body := balancedLevel.mp matched.body
  exact openInside found opens body order after (Nat.le_of_lt inside) level

theorem closingMatched {program : Program} {index : Nat} {statement : Statement}
    (balanced : Balanced program.toList) (found : program[index]? = some statement)
    (closes : statement.closes = true) : ∃ head, Matched program head index := by
  obtain ⟨bound, _⟩ := Array.getElem?_eq_some_iff.mp found
  have level := balancedLevel.mp balanced
  have split := betweenAppend program (Nat.zero_le index) (Nat.le_of_lt bound)
  rw [betweenLast program 0, List.drop_zero, betweenCons bound found] at split
  rw [← split, levelAppend, Option.bind_eq_some_iff] at level
  obtain ⟨depth, front, rest⟩ := level
  cases depth with
  | zero =>
    rw [levelStray closes] at rest
    contradiction
  | succ depth =>
    obtain ⟨before, head, body, same, opens, inner⟩ := levelInnermost front
    have here : (between program 0 index)[before.length]? = some head := by
      rw [same, List.getElem?_append_right (Nat.le_refl _), Nat.sub_self]
      rfl
    have length := congrArg List.length same
    rw [betweenLength (Nat.le_of_lt bound), List.length_append, List.length_cons] at length
    have stands : program[before.length]? = some head := by
      rw [betweenFirst, List.getElem?_take_of_lt (by omega)] at here
      rw [← Array.getElem?_toList]
      exact here
    have order : before.length < index := by omega
    have inside : between program (before.length + 1) index = body := by
      have parts := betweenAppend program (Nat.zero_le before.length) (Nat.le_of_lt order)
      rw [betweenCons order stands, same] at parts
      have first : (between program 0 before.length).length = before.length := by
        rw [betweenLength (by omega), Nat.sub_zero]
      exact (List.cons.inj (List.append_inj parts first).2).2
    exact ⟨before.length, order, ⟨head, stands, opens⟩, balancedLevel.mpr (inside ▸ inner),
      ⟨statement, found, closes⟩⟩

end Nesting

namespace Machine
open Nesting

theorem placedMatched {program : Program} {outer : List Loop} {loop : Loop}
    (placed : Placed program outer loop) : Matched program loop.head loop.close :=
  ⟨placed.order, ⟨loop.statement, placed.found, loopOpens placed.form⟩,
    balancedLevel.mpr placed.body, placed.closes⟩

theorem headsBelow {program : Program} {loops : List Loop} (nested : Nested program loops) :
    ∀ loop ∈ loops, loop.head < blockStart loops := by
  induction loops with
  | nil => intro loop member; contradiction
  | cons first outer ih =>
    intro loop member
    rcases List.mem_cons.mp member with same | further
    · rw [same]
      exact Nat.lt_succ_self _
    · have below := ih nested.2 loop further
      have start := nested.1.start
      dsimp only [blockStart]
      omega

theorem headsSorted {program : Program} {loops : List Loop} (nested : Nested program loops) :
    (loops.map Loop.head).reverse.Pairwise (· < ·) := by
  rw [List.pairwise_reverse, List.pairwise_map]
  induction loops with
  | nil => exact .nil
  | cons loop outer ih =>
    refine List.pairwise_cons.mpr ⟨?_, ih nested.2⟩
    intro further member
    exact Nat.lt_of_lt_of_le (headsBelow nested.2 further member) nested.1.start

theorem openContains {program : Program} {loops : List Loop} {cursor : Nat}
    (nested : Nested program loops) (start : blockStart loops ≤ cursor)
    (inside : cursor < blockEnd program loops) :
    ∀ loop ∈ loops, Contains program loop.head cursor := by
  induction loops with
  | nil => intro loop member; contradiction
  | cons first outer ih =>
    intro loop member
    rcases List.mem_cons.mp member with same | further
    · rw [same]
      exact ⟨start, first.close, placedMatched nested.1, inside⟩
    · have outside := nested.1.start
      have stop := nested.1.stop
      dsimp only [blockStart, blockEnd] at start inside
      exact ih nested.2 (by omega) (by omega) loop further

theorem containsOpen {program : Program} {loops : List Loop} {cursor head : Nat}
    (nested : Nested program loops) (start : blockStart loops ≤ cursor)
    (level : level? 0 (between program (blockStart loops) cursor) = some 0)
    (contains : Contains program head cursor) : head ∈ loops.map Loop.head := by
  induction loops generalizing cursor with
  | nil => exact absurd (Nat.zero_le head) (containsBefore level contains)
  | cons loop outer ih =>
    rw [List.map_cons, List.mem_cons]
    by_cases same : head = loop.head
    · exact .inl same
    · -- Such a loop goes around the innermost open one as well.
      have before := containsBefore level contains
      obtain ⟨_, close, matched, inside⟩ := contains
      dsimp only [blockStart] at start before
      have around : Contains program head loop.head := ⟨by omega, close, matched, by omega⟩
      exact .inr (ih nested.2 nested.1.start nested.1.before around)

theorem nestedEnclose {program : Program} {loops : List Loop} {cursor : Nat}
    (nested : Nested program loops) (start : blockStart loops ≤ cursor)
    (inside : cursor < blockEnd program loops)
    (level : level? 0 (between program (blockStart loops) cursor) = some 0) :
    enclosing program cursor = (loops.map Loop.head).reverse := by
  apply (enclosingSorted program cursor).eq_of_mem_iff (headsSorted nested)
  intro head
  rw [enclosingMem, List.mem_reverse]
  apply Iff.intro
  · exact containsOpen nested start level
  · intro member
    obtain ⟨loop, member, same⟩ := List.mem_map.mp member
    exact same ▸ openContains nested start inside loop member

theorem openEnclose {program : Program} {cursor : Nat} {loops : List Loop} {store : Store}
    {report : Report} {statement : Statement}
    (sound : Sound program (.walk cursor loops store report))
    (found : current? program loops cursor = some statement) :
    enclosing program cursor = (loops.map Loop.head).reverse :=
  nestedEnclose sound.nested sound.place.1 (currentSome.mp found).1 sound.place.2.2

end Machine
end CounterLang
