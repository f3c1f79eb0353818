import Mathlib.Algebra.Group.Nat.Defs
import Mathlib.Tactic.SplitIfs

/-! The order of names by their bytes. A character is written as a leading byte and as many
bytes behind it as its code point needs, with six bits in each. A larger code point has a
larger byte at the first place where the two differ, so names stand in the same order by
bytes, by code points and by characters. -/
namespace CounterLang.Text

def bytes (name : String) : List UInt8 := name.toUTF8.data.toList

def codePoints (name : String) : List Nat := name.toList.map Char.toNat

def trailing (code : Nat) : Nat :=
  if code ≤ 0x7f then 0 else if code ≤ 0x7ff then 1 else if code ≤ 0xffff then 2 else 3

def leading (code : Nat) : Nat :=
  if code ≤ 0x7f then code
  else if code ≤ 0x7ff then code / 64 + 0xc0
  else if code ≤ 0xffff then code / 4096 + 0xe0
  else code / 262144 + 0xf0

def marked : Nat → Nat → List UInt8
  | 0, _ => []
  | count + 1, code => UInt8.ofNat (code / 64 ^ count % 64 + 0x80) :: marked count code

theorem codeBound (c : Char) : c.toNat < 0x110000 := by
  have valid := c.valid
  simp only [UInt32.isValidChar, Nat.isValidChar] at valid
  change c.val.toNat < _
  omega

theorem encodedParts (c : Char) : String.utf8EncodeChar c =
    UInt8.ofNat (leading c.toNat) :: marked (trailing c.toNat) c.toNat := by
  have bound := codeBound c
  have same : c.val.toNat = c.toNat := rfl
  simp only [String.utf8EncodeChar, same]
  generalize c.toNat = code at bound
  unfold leading trailing
  by_cases one : code ≤ 0x7f
  · simp only [one, if_true, marked]
  · by_cases two : code ≤ 0x7ff
    · have small : code / 64 % 32 = code / 64 := by omega
      simp [one, two, marked, small]
    · by_cases three : code ≤ 0xffff
      · have small : code / 4096 % 16 = code / 4096 := by omega
        simp [one, two, three, marked, small]
      · have small : code / 262144 % 8 = code / 262144 := by omega
        simp [one, two, three, marked, small]

/- Of two code points the larger one has the larger leading byte, or it has the same one and
the two differ in the digits behind it only. -/
theorem leadingBelow {low high : Nat} (below : low < high) (bound : high < 0x110000) :
    leading high < 256 ∧ (leading low < leading high ∨
      leading low = leading high ∧ trailing low = trailing high ∧
        low / 64 ^ trailing low = high / 64 ^ trailing low) := by
  unfold leading trailing
  split_ifs <;> omega

theorem markedBelow {count low high : Nat} (same : low / 64 ^ count = high / 64 ^ count)
    (below : low < high) (front back : List UInt8) :
    marked count low ++ front < marked count high ++ back := by
  induction count with
  | zero =>
    rw [Nat.pow_zero, Nat.div_one, Nat.div_one] at same
    omega
  | succ count ih =>
    rw [Nat.pow_succ, ← Nat.div_div_eq_div_mul, ← Nat.div_div_eq_div_mul] at same
    have order : low / 64 ^ count ≤ high / 64 ^ count := Nat.div_le_div_right (Nat.le_of_lt below)
    rw [marked, marked, List.cons_append, List.cons_append, List.cons_lt_cons_iff]
    rcases Nat.lt_or_eq_of_le order with less | equal
    · left
      rw [UInt8.lt_iff_toNat_lt, UInt8.toNat_ofNat', UInt8.toNat_ofNat']
      omega
    · rw [equal]
      exact .inr ⟨rfl, ih equal⟩

theorem encodedBelow {low high : Char} (below : low < high) (front back : List UInt8) :
    String.utf8EncodeChar low ++ front < String.utf8EncodeChar high ++ back := by
  have order : low.toNat < high.toNat := below
  obtain ⟨top, parts⟩ := leadingBelow order (codeBound high)
  rw [encodedParts, encodedParts, List.cons_append, List.cons_append, List.cons_lt_cons_iff]
  rcases parts with less | ⟨equal, count, same⟩
  · left
    rw [UInt8.lt_iff_toNat_lt, UInt8.toNat_ofNat', UInt8.toNat_ofNat']
    omega
  · rw [equal, ← count]
    exact .inr ⟨rfl, markedBelow same order front back⟩

theorem bytesEncoded (name : String) :
    bytes name = name.toList.flatMap String.utf8EncodeChar := by
  conv => lhs; rw [← String.ofList_toList (s := name)]
  rw [bytes, String.toUTF8_eq_toByteArray, String.toByteArray_ofList]
  exact List.toList_data_toByteArray

theorem bytesBelow {first second : String} (below : first < second) :
    bytes first < bytes second := by
  rw [bytesEncoded, bytesEncoded]
  have order : first.toList < second.toList := below
  generalize first.toList = low, second.toList = high at order
  induction order with
  | nil =>
    rw [List.flatMap_cons, encodedParts]
    exact List.nil_lt_cons _ _
  | rel less => exact encodedBelow less _ _
  | cons rest ih => exact List.append_left_lt ih

theorem codePointsBelow {first second : String} (below : first < second) :
    codePoints first < codePoints second :=
  List.map_lt (fun _ _ less => less) below

theorem orderKept {item : Type} [LT item] [@Std.Asymm item (· < ·)]
    {key : String → List item} (keeps : ∀ {first second}, first < second → key first < key second)
    {first second : String} : key first < key second ↔ first < second := by
  refine ⟨fun below => ?_, keeps⟩
  apply String.not_le.mp
  intro above
  by_cases same : first = second
  · subst same
    exact List.lt_irrefl _ below
  · have other : second < first := String.not_le.mp fun back => same (String.le_antisymm back above)
    exact List.lt_asymm below (keeps other)

theorem bytesOrder {first second : String} : bytes first < bytes second ↔ first < second :=
  orderKept bytesBelow

theorem codePointsOrder {first second : String} :
    codePoints first < codePoints second ↔ first < second :=
  orderKept codePointsBelow

end CounterLang.Text
