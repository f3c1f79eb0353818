import CounterLang.Text

/-! What decimal numerals denote. Digits that are taken in one by one within 64 bits come to
the number that they denote without any bound, if that fits at all, and what is
written of a number is read as this number. -/
namespace CounterLang.Numeral

theorem shiftDigit {value next : UInt64} {c : Char} : shift? value c = some next ↔
    c.isDigit = true ∧ next.toNat = 10 * value.toNat + (c.toNat - '0'.toNat) := by
  unfold shift?
  split
  · rename_i digit
    dsimp only
    split
    · rename_i fits
      rw [Option.some.injEq, ← UInt64.toNat_inj, UInt64.toNat_ofNatLT]
      exact ⟨fun same => ⟨digit, same.symm⟩, fun ⟨_, same⟩ => same.symm⟩
    · rename_i large
      have bound := next.toNat_lt
      simp only [reduceCtorEq, false_iff, not_and]
      intro _ same
      exact large (same ▸ bound)
  · rename_i other
    simp [other]

theorem digitsGrow (digits : List Char) (value : Nat) :
    value ≤ Nat.ofDigitChars 10 digits value := by
  rw [Nat.ofDigitChars_eq_ofDigitChars_zero]
  have positive : 0 < 10 ^ digits.length := Nat.pow_pos (by decide)
  have scaled := Nat.le_mul_of_pos_left value positive
  omega

theorem shiftDigits {digits : List Char} {value last : UInt64} :
    digits.foldlM shift? value = some last ↔ (∀ c ∈ digits, c.isDigit = true) ∧
      Nat.ofDigitChars 10 digits value.toNat = last.toNat := by
  induction digits generalizing value with
  | nil => simp [UInt64.toNat_inj]
  | cons c digits ih =>
    rw [List.foldlM_cons, Option.bind_eq_bind, Option.bind_eq_some_iff, Nat.ofDigitChars_cons,
      List.forall_mem_cons]
    constructor
    · intro ⟨next, shifted, later⟩
      obtain ⟨digit, same⟩ := shiftDigit.mp shifted
      obtain ⟨others, denoted⟩ := ih.mp later
      exact ⟨⟨digit, others⟩, same ▸ denoted⟩
    · intro ⟨⟨digit, others⟩, denoted⟩
      -- What is reached on the way is no larger than what is reached in the end.
      have grown := digitsGrow digits (10 * value.toNat + (c.toNat - '0'.toNat))
      rw [denoted] at grown
      have fits := Nat.lt_of_le_of_lt grown last.toNat_lt
      have next := UInt64.toNat_ofNatLT (h := fits)
      exact ⟨_, shiftDigit.mpr ⟨digit, next⟩, ih.mpr ⟨others, by rw [next, denoted]⟩⟩

theorem numeralRead {word : List Char} {value : UInt64} : read? word = some value ↔
    unsigned word ≠ [] ∧ (∀ c ∈ unsigned word, c.isDigit = true) ∧
      Nat.ofDigitChars 10 (unsigned word) 0 = value.toNat := by
  have digits := @shiftDigits (unsigned word) 0 value
  unfold read?
  split
  · rename_i nothing
    simp [nothing]
  · rename_i some
    rw [digits]
    exact (and_iff_right some).symm

theorem writtenDigits (value : UInt64) : ∀ c ∈ (write value).toList, c.isDigit = true := by
  intro c member
  rw [write, Nat.toList_repr] at member
  exact Nat.isDigit_of_mem_toDigits (by decide) (by decide) member

theorem digitSolid {c : Char} (digit : c.isDigit = true) : Text.isBlank c = false := by
  simp only [Char.isDigit, ge_iff_le, Bool.and_eq_true, decide_eq_true_eq] at digit
  obtain ⟨low, high⟩ := digit
  have first : 48 ≤ c.toNat := low
  have last : c.toNat ≤ 57 := high
  simp only [Text.isBlank, Text.blankRanges, List.any_cons, List.any_nil, Bool.or_eq_false_iff,
    decide_eq_false_iff_not, and_true]
  omega

theorem writtenSome (value : UInt64) : (write value).toList ≠ [] := by
  rw [write, Nat.toList_repr]
  exact Nat.toDigits_ne_nil

theorem digitsUnsigned {digits : List Char} (numeric : ∀ c ∈ digits, c.isDigit = true) :
    unsigned digits = digits := by
  unfold unsigned
  split
  · simp at numeric
  · rfl

theorem writtenRead (value : UInt64) : read? (write value).toList = some value := by
  rw [numeralRead, digitsUnsigned (writtenDigits value)]
  refine ⟨writtenSome value, writtenDigits value, ?_⟩
  rw [write, Nat.toList_repr, Nat.ofDigitChars_ten_toDigits]

end CounterLang.Numeral
