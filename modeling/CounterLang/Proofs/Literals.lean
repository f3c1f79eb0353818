import Mathlib.Data.Nat.Digits.Defs
import CounterLang.Proofs.Printing

/-! Literal targets. A word is a literal if it is a numeral and what the numeral denotes fits
into 64 bits. What it denotes is said by the places of its digits, and there is no
bound to that; every other word is a name, however much it looks like a number. -/
namespace CounterLang
namespace Numeral

def placed (digits : List Char) : Nat :=
  Nat.ofDigits 10 (digits.reverse.map fun c => c.toNat - '0'.toNat)

inductive Denotes : List Char → Nat → Prop where
  | bare {digits} (some : digits ≠ []) (numeric : ∀ c ∈ digits, c.isDigit = true) :
      Denotes digits (placed digits)
  | signed {digits} (some : digits ≠ []) (numeric : ∀ c ∈ digits, c.isDigit = true) :
      Denotes ('+' :: digits) (placed digits)

section Places

variable {digits word : List Char} {number : Nat} {value : UInt64}

theorem placedInOrder (digits : List Char) : Nat.ofDigitChars 10 digits 0 = placed digits := by
  rw [placed, Nat.ofDigits_eq_foldr, List.foldr_map, List.foldr_reverse, Nat.ofDigitChars]
  congr 1
  funext value c
  exact Nat.add_comm _ _

theorem placedZeros (zeros : Nat) (digits : List Char) :
    placed (List.replicate zeros '0' ++ digits) = placed digits := by
  rw [placed, List.reverse_append, List.map_append, List.reverse_replicate, List.map_replicate]
  exact Nat.ofDigits_append_replicate_zero _

theorem placedWritten (value : UInt64) : placed (write value).toList = value.toNat := by
  rw [← placedInOrder, write, Nat.toList_repr, Nat.ofDigitChars_ten_toDigits]

theorem denotesUnsigned : Denotes word number ↔
    unsigned word ≠ [] ∧ (∀ c ∈ unsigned word, c.isDigit = true) ∧
      placed (unsigned word) = number := by
  constructor
  · intro denotes
    cases denotes with
    | bare some numeric =>
      rw [digitsUnsigned numeric]
      exact ⟨some, numeric, rfl⟩
    | signed some numeric => exact ⟨some, numeric, rfl⟩
  · rintro ⟨some, numeric, rfl⟩
    have form : word = '+' :: unsigned word ∨ unsigned word = word := by
      unfold unsigned
      split
      · exact .inl rfl
      · exact .inr rfl
    rcases form with plus | same
    · rw [plus]
      exact .signed some numeric
    · rw [same] at some numeric ⊢
      exact .bare some numeric

theorem denotesOnce {other : Nat} (first : Denotes word number) (second : Denotes word other) :
    number = other := by
  obtain ⟨_, _, rfl⟩ := denotesUnsigned.mp first
  exact (denotesUnsigned.mp second).2.2

theorem readDenotes : read? word = some value ↔ Denotes word value.toNat := by
  rw [numeralRead, denotesUnsigned, placedInOrder]

theorem readNone : read? word = none ↔ ∀ number, Denotes word number → UInt64.size ≤ number := by
  rw [Option.eq_none_iff_forall_ne_some]
  constructor
  · intro unread number denotes
    by_contra small
    have fits : number < UInt64.size := Nat.lt_of_not_le small
    refine unread (UInt64.ofNatLT number fits) (readDenotes.mpr ?_)
    rwa [UInt64.toNat_ofNatLT]
  · intro large value read
    have bound := large _ (readDenotes.mp read)
    exact Nat.not_lt.mpr bound value.toNat_lt

theorem denotesDigits (denotes : Denotes word number) :
    ∀ c ∈ word, c.isDigit = true ∨ c = '+' := by
  cases denotes with
  | bare some numeric => exact fun c member => .inl (numeric c member)
  | signed some numeric =>
    exact List.forall_mem_cons.mpr ⟨.inr rfl, fun c member => .inl (numeric c member)⟩

theorem denotesTail (denotes : Denotes word number) : ∀ c ∈ word.tail, c.isDigit = true := by
  cases denotes with
  | bare some numeric => exact fun c member => numeric c (List.mem_of_mem_tail member)
  | signed some numeric => exact numeric

theorem paddedDigits (zeros : Nat) (value : UInt64) :
    List.replicate zeros '0' ++ (write value).toList ≠ [] ∧
      ∀ c ∈ List.replicate zeros '0' ++ (write value).toList, c.isDigit = true := by
  refine ⟨List.append_ne_nil_of_right_ne_nil _ (writtenSome value), fun c member => ?_⟩
  rcases List.mem_append.mp member with zero | digit
  · rw [List.eq_of_mem_replicate zero]
    rfl
  · exact writtenDigits value c digit

end Places
end Numeral

namespace Operand

open Numeral

section Words

variable {word name : String} {value : UInt64}

theorem literalDenotes : read word = .literal value ↔ Denotes word.toList value.toNat := by
  rw [← readDenotes, read]
  split
  · rename_i found same
    rw [same, Operand.literal.injEq, Option.some.injEq]
  · rename_i unread
    simp [unread]

theorem namedDenotes : read word = .named name ↔
    name = word ∧ ∀ number, Denotes word.toList number → UInt64.size ≤ number := by
  rw [← readNone, read]
  split
  · rename_i found same
    simp [same]
  · rename_i unread
    rw [Operand.named.injEq, and_iff_left unread]
    exact eq_comm

theorem namedOther (none : ∀ number, ¬ Denotes word.toList number) : read word = .named word :=
  namedDenotes.mpr ⟨rfl, fun number denotes => absurd denotes (none number)⟩

theorem namedForeign {c : Char} (member : c ∈ word.toList) (other : c.isDigit = false)
    (unsigned : c ≠ '+') : read word = .named word := by
  refine namedOther fun number denotes => ?_
  rcases denotesDigits denotes c member with digit | plus
  · rw [digit] at other
    contradiction
  · exact unsigned plus

theorem namedBehind {c : Char} (member : c ∈ word.toList.tail) (other : c.isDigit = false) :
    read word = .named word := by
  refine namedOther fun number denotes => ?_
  rw [denotesTail denotes c member] at other
  contradiction

end Words

section Digits

variable {digits : List Char}

theorem literalPadded (zeros : Nat) (value : UInt64) :
    let digits := List.replicate zeros '0' ++ (write value).toList
    read (String.ofList digits) = .literal value ∧
      read (String.ofList ('+' :: digits)) = .literal value := by
  intro digits
  obtain ⟨some, numeric⟩ := paddedDigits zeros value
  have same : placed digits = value.toNat := by rw [placedZeros, placedWritten]
  constructor
  · rw [literalDenotes, String.toList_ofList, ← same]
    exact .bare some numeric
  · rw [literalDenotes, String.toList_ofList, ← same]
    exact .signed some numeric

theorem namedLarge (numeric : ∀ c ∈ digits, c.isDigit = true)
    (large : UInt64.size ≤ placed digits) :
    read (String.ofList digits) = .named (String.ofList digits) ∧
      read (String.ofList ('+' :: digits)) = .named (String.ofList ('+' :: digits)) := by
  have above {word : List Char} (same : unsigned word = digits) :
      read (String.ofList word) = .named (String.ofList word) := by
    refine namedDenotes.mpr ⟨rfl, fun number denotes => ?_⟩
    rw [String.toList_ofList, denotesUnsigned, same] at denotes
    exact denotes.2.2 ▸ large
  exact ⟨above (digitsUnsigned numeric), above rfl⟩

end Digits

theorem literalsAgree (first second : String) :
    (∃ value, read first = .literal value ∧ read second = .literal value) ↔
      ∃ number < UInt64.size, Denotes first.toList number ∧ Denotes second.toList number := by
  constructor
  · intro ⟨value, one, two⟩
    exact ⟨value.toNat, value.toNat_lt, literalDenotes.mp one, literalDenotes.mp two⟩
  · intro ⟨number, fits, one, two⟩
    have same : number = (UInt64.ofNatLT number fits).toNat := UInt64.toNat_ofNatLT.symm
    rw [same] at one two
    exact ⟨_, literalDenotes.mpr one, literalDenotes.mpr two⟩

theorem headerTarget {control word : String} (first : Token.Word control)
    (second : Token.Word word) :
    Instruction.read (" ".intercalate ["while", control, "not", word, "do"]) =
      .loop control (read word) := by
  have marks : Token.Word "while" ∧ Token.Word "not" ∧ Token.Word "do" := by decide
  have all : ∀ part ∈ ["while", control, "not", word, "do"], Token.Word part := by
    simpa using ⟨marks.1, first, marks.2.1, second, marks.2.2⟩
  rw [Instruction.read, Token.wordsSpaced all]
  exact Instruction.spelledOnly .loop

theorem targetsDenote :
    (∀ word value, read word = .literal value ↔ Denotes word.toList value.toNat) ∧
    (∀ word name, read word = .named name ↔
      name = word ∧ ∀ number, Denotes word.toList number → UInt64.size ≤ number) ∧
    (∀ (zeros : Nat) (value : UInt64),
      let digits := List.replicate zeros '0' ++ (write value).toList
      read (String.ofList digits) = .literal value ∧
        read (String.ofList ('+' :: digits)) = .literal value) ∧
    (∀ digits : List Char, (∀ c ∈ digits, c.isDigit = true) → UInt64.size ≤ placed digits →
      read (String.ofList digits) = .named (String.ofList digits) ∧
        read (String.ofList ('+' :: digits)) = .named (String.ofList ('+' :: digits))) ∧
    (∀ word : String, ∀ c ∈ word.toList, c.isDigit = false → c ≠ '+' → read word = .named word) ∧
    (∀ word : String, ∀ c ∈ word.toList.tail, c.isDigit = false → read word = .named word) ∧
    read "+" = .named "+" ∧ read "-0" = .named "-0" ∧
    (∀ word number other, Denotes word number → Denotes word other → number = other) ∧
    (∀ first second : String,
      (∃ value, read first = .literal value ∧ read second = .literal value) ↔
        ∃ number < UInt64.size, Denotes first.toList number ∧ Denotes second.toList number) ∧
    ∀ control word : String, Token.Word control → Token.Word word →
      Instruction.read (" ".intercalate ["while", control, "not", word, "do"]) =
        .loop control (read word) := by
  refine ⟨fun word value => literalDenotes, fun word name => namedDenotes, literalPadded,
    fun digits => namedLarge, ?_, ?_, by decide, by decide, ?_, literalsAgree, ?_⟩
  · exact fun word c member other unsigned => namedForeign member other unsigned
  · exact fun word c member other => namedBehind member other
  · exact fun word number other one two => denotesOnce one two
  · exact fun control word first second => headerTarget first second

theorem limitDenoted :
    let zeros := List.replicate 40 '0'
    read (String.ofList ('+' :: (zeros ++ "18446744073709551615".toList))) =
      .literal 18446744073709551615 ∧
    read "+18446744073709551616" = .named "+18446744073709551616" ∧
    read "184467440737095516150" = .named "184467440737095516150" ∧
    read "٣" = .named "٣" ∧ read "1+" = .named "1+" ∧
    (∃ number < UInt64.size, Denotes "+007".toList number ∧ Denotes "7".toList number) ∧
    Instruction.read (" ".intercalate ["while", "do", "not", "+007", "do"]) =
      .loop "do" (.literal 7) := by
  intro zeros
  obtain ⟨_, _, padded, large, other, behind, _, _, _, pairs, headers⟩ := targetsDenote
  have limit : (write 18446744073709551615).toList = "18446744073709551615".toList := by decide
  have digits : "18446744073709551616".toList.all Char.isDigit = true := by decide
  have more : "184467440737095516150".toList.all Char.isDigit = true := by decide
  have sum := large _ (List.all_eq_true.mp digits) (by decide)
  have product := large _ (List.all_eq_true.mp more) (by decide)
  have seven : read "+007" = .literal 7 ∧ read "7" = .literal 7 := by decide
  have header := headers "do" "+007" (by decide) (by decide)
  refine ⟨?_, sum.2, product.1, other "٣" '٣' (by decide) (by decide) (by decide),
    behind "1+" '+' (by decide) (by decide), (pairs _ _).mp ⟨7, seven⟩, ?_⟩
  · rw [← limit]
    exact (padded 40 18446744073709551615).2
  · rw [header, seven.1]

end Operand
end CounterLang
