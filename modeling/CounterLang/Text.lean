/-! Text as characters: which of them are blank, its physical lines, the runs between
separators, and decimal numerals of 64-bit counters. The blanks are the White_Space property
of the character standard; the control characters U+001C to U+001F and the zero-width ones
are no members, so a word may contain them. A line ends at a newline, and one carriage return
right before it belongs to the line end. No numeral wraps: the first digit that does not fit
ends the reading. -/
namespace CounterLang
namespace Text

def blankRanges : List (Nat × Nat) :=
  [(0x9, 0xD), (0x20, 0x20), (0x85, 0x85), (0xA0, 0xA0), (0x1680, 0x1680),
   (0x2000, 0x200A), (0x2028, 0x2029), (0x202F, 0x202F), (0x205F, 0x205F), (0x3000, 0x3000)]

example : (blankRanges.map fun range => range.2 + 1 - range.1).sum = 25 := rfl

def isBlank (c : Char) : Bool :=
  blankRanges.any fun range => decide (range.1 ≤ c.toNat ∧ c.toNat ≤ range.2)

def trimStart (cs : List Char) : List Char := cs.dropWhile isBlank

def trimEnd (cs : List Char) : List Char := (cs.reverse.dropWhile isBlank).reverse

def trim (cs : List Char) : List Char := trimEnd (trimStart cs)

def dropReturn (line : List Char) : List Char :=
  if line.getLast? = some '\r' then line.dropLast else line

def lines (cs : List Char) : List (List Char) :=
  let pieces := cs.splitOn '\n'
  pieces.dropLast.map dropReturn ++ (pieces.getLast?.toList.filter fun piece => !piece.isEmpty)

theorem linesNil : lines [] = [] := by simp [lines]

theorem linesAfterNewline (front rest : List Char) :
    lines (front ++ '\n' :: rest) = lines (front ++ ['\n']) ++ lines rest := by
  have split (tail : List Char) : (front ++ '\n' :: tail).splitOn '\n' =
      front.splitOn '\n' ++ tail.splitOn '\n' :=
    List.splitOnP_append_cons front tail (by simp)
  have full (tail : List Char) : tail.splitOn '\n' ≠ [] := List.splitOnP_ne_nil _ tail
  have bare : ([] : List Char).splitOn '\n' = [[]] := by simp
  simp only [lines, split, bare]
  rw [List.dropLast_append_of_ne_nil (full rest), List.dropLast_append_of_ne_nil (by simp)]
  simp [List.getLast?_append, List.getLast?_eq_some_getLast (full rest)]

def runs (separates : Char → Bool) (cs : List Char) : List (List Char) :=
  (cs.splitOnP separates).filter fun piece => !piece.isEmpty

theorem runsNil (separates : Char → Bool) : runs separates [] = [] := by
  simp [runs]

theorem runsAtSeparator {separates : Char → Bool} {c : Char} (front rest : List Char)
    (h : separates c = true) :
    runs separates (front ++ c :: rest) = runs separates front ++ runs separates rest := by
  simp [runs, List.splitOnP_append_cons front rest h]

theorem runsWhole {separates : Char → Bool} {word : List Char} (nonempty : word ≠ [])
    (h : ∀ c ∈ word, separates c = false) : runs separates word = [word] := by
  cases word with
  | nil => exact absurd rfl nonempty
  | cons c cs => simp [runs, List.splitOnP_eq_singleton h]

end Text

namespace Numeral

def shift? (value : UInt64) (c : Char) : Option UInt64 :=
  if c.isDigit then
    let next := 10 * value.toNat + (c.toNat - '0'.toNat)
    if fits : next < UInt64.size then some (UInt64.ofNatLT next fits) else none
  else none

def unsigned : List Char → List Char
  | '+' :: digits => digits
  | digits => digits

def read? (word : List Char) : Option UInt64 :=
  match unsigned word with
  | [] => none
  | digits => digits.foldlM shift? 0

def write (value : UInt64) : String := Nat.repr value.toNat

end Numeral
end CounterLang
