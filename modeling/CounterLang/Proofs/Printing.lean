import CounterLang.Proofs.Decoding
import CounterLang.Proofs.Numerals
import CounterLang.Proofs.Segmentation

/-! Instructions written as text. What a text can say has a written form that says the same
again. Of the instructions that can be put together by hand many are said by no text:
a word cannot be empty, and a numeral is never the name of a target. -/
namespace CounterLang
namespace Token

structure Word (word : String) : Prop where
  full : word ≠ ""
  solid : ∀ c ∈ word.toList, isSeparator c = false

instance (word : String) : Decidable (Word word) :=
  decidable_of_iff (word ≠ "" ∧ word.toList.all (!isSeparator ·) = true) (by
    simp only [List.all_eq_true, Bool.not_eq_true']
    exact ⟨fun ⟨full, solid⟩ => ⟨full, solid⟩, fun word => ⟨word.full, word.solid⟩⟩)

theorem wordsWord (text : String) : ∀ word ∈ words text, Word word := by
  intro word member
  obtain ⟨run, inside, same⟩ := List.mem_map.mp member
  obtain ⟨some, solid⟩ := Text.runSolid inside
  subst word
  refine ⟨by simpa using some, fun c here => ?_⟩
  exact (solid c (by simpa using here)).2

theorem wordsSpaced {phrase : List String} (all : ∀ word ∈ phrase, Word word) :
    words (" ".intercalate phrase) = phrase := by
  have found : Text.runs isSeparator (" ".toList.intercalate (phrase.map String.toList)) =
      phrase.map String.toList := by
    refine Text.runsJoined (by decide) fun run member => ?_
    obtain ⟨word, inside, same⟩ := List.mem_map.mp member
    subst run
    exact ⟨by simpa using (all word inside).full, (all word inside).solid⟩
  rw [words, String.toList_intercalate, found]
  simp [Function.comp_def]

theorem spellingWord (keyword : Keyword) : Word keyword.spelling := by
  rcases keyword with action | _ | _
  · cases action <;> decide
  · decide
  · decide

theorem writtenWord (value : UInt64) : Word (Numeral.write value) := by
  refine ⟨fun empty => Numeral.writtenSome value (by simp [empty]), fun c member => ?_⟩
  have solid := Numeral.digitSolid (Numeral.writtenDigits value c member)
  refine Bool.eq_false_iff.mpr fun separates => ?_
  rw [separatorBlank separates] at solid
  contradiction

end Token

def Operand.written : Operand → String
  | .literal value => Numeral.write value
  | .named name => name

namespace Instruction

inductive Sayable : Instruction → Prop where
  | act {action name} (word : Token.Word name) : Sayable (.act action name)
  | literal {control value} (word : Token.Word control) : Sayable (.loop control (.literal value))
  | named {control name} (word : Token.Word control) (other : Token.Word name)
      (free : Numeral.read? name.toList = none) : Sayable (.loop control (.named name))
  | close : Sayable .close
  | missing {keyword} (other : keyword ≠ .close) : Sayable (.malformed keyword .missingArgument)
  | tooMany {action found} (several : 2 ≤ found) :
      Sayable (.malformed (.act action) (.tooMany found))
  | illegal : Sayable (.malformed .loop .illegalLoop)
  | nothing : Sayable (.unknown "")
  | unknown {word} (some : Token.Word word)
      (foreign : ∀ keyword : Keyword, word ≠ keyword.spelling) : Sayable (.unknown word)

/- The words of an instruction. Where it does not tell the arguments, any words will do. -/
def phrase (filler : Nat → String) : Instruction → List String
  | .act action name => [action.spelling, name]
  | .loop control target => ["while", control, "not", target.written, "do"]
  | .close => ["end"]
  | .malformed keyword .missingArgument => [keyword.spelling]
  | .malformed keyword (.tooMany found) => keyword.spelling :: (List.range found).map filler
  | .malformed keyword .illegalLoop => [keyword.spelling, filler 0]
  | .unknown word => [word]

def print (filler : Nat → String) (instruction : Instruction) : String :=
  " ".intercalate (phrase filler instruction)

theorem spelledSayable {words : List String} {instruction : Instruction}
    (all : ∀ word ∈ words, Token.Word word) (spells : Spells words instruction) :
    Sayable instruction := by
  cases spells with
  | nothing => exact .nothing
  | unknown foreign => exact .unknown (all _ List.mem_cons_self) foreign
  | close => exact .close
  | missing other => exact .missing other
  | act => exact .act (all _ (by simp))
  | tooMany several => exact .tooMany several
  | @loop control target =>
    have first := all control (by simp)
    have second := all target (by simp)
    unfold Operand.read
    split
    · exact .literal first
    · rename_i free
      exact .named first second free
  | illegal some other => exact .illegal

theorem readSayable (text : String) : Sayable (read text) :=
  spelledSayable (Token.wordsWord text) (wordsSpelled (Token.words text))

theorem literalRead (value : UInt64) : Operand.read (Numeral.write value) = .literal value := by
  simp only [Operand.read, Numeral.writtenRead]

theorem namedRead {name : String} (free : Numeral.read? name.toList = none) :
    Operand.read name = .named name := by
  simp only [Operand.read, free]

section Fillers

variable {filler : Nat → String} {instruction : Instruction}

theorem phraseSpells (sayable : Sayable instruction) (some : instruction ≠ .unknown "") :
    Spells (phrase filler instruction) instruction := by
  cases sayable with
  | act word => exact .act
  | @literal control value word =>
    have form : Spells ["while", control, "not", Numeral.write value, "do"]
        (.loop control (.read (Numeral.write value))) := .loop
    rwa [literalRead] at form
  | @named control name word other free =>
    have form : Spells ["while", control, "not", name, "do"] (.loop control (.read name)) := .loop
    rwa [namedRead free] at form
  | close => exact .close
  | missing other => exact .missing other
  | @tooMany action found several =>
    have enough : 2 ≤ ((List.range found).map filler).length := by simpa using several
    have form : Spells (action.spelling :: (List.range found).map filler)
        (.malformed (.act action) (.tooMany ((List.range found).map filler).length)) :=
      .tooMany enough
    rwa [List.length_map, List.length_range] at form
  | illegal => exact .illegal (by simp) (by simp)
  | nothing => contradiction
  | unknown word foreign => exact .unknown foreign

theorem phraseSolid (fillers : ∀ index, Token.Word (filler index))
    (sayable : Sayable instruction) (some : instruction ≠ .unknown "") :
    ∀ word ∈ phrase filler instruction, Token.Word word := by
  have spelling := Token.spellingWord
  have header {control target : String} (first : Token.Word control)
      (second : Token.Word target) : ∀ word ∈ ["while", control, "not", target, "do"],
        Token.Word word := by
    have marks : Token.Word "not" ∧ Token.Word "do" := by decide
    simpa using ⟨spelling .loop, first, marks.1, second, marks.2⟩
  cases sayable with
  | @act action name word => simpa [phrase] using ⟨spelling (.act action), word⟩
  | @literal control value word => exact header word (Token.writtenWord value)
  | named word other free => exact header word other
  | close => exact List.forall_mem_singleton.mpr (spelling .close)
  | @missing keyword other => simpa [phrase] using spelling keyword
  | @tooMany action found several =>
    refine List.forall_mem_cons.mpr ⟨spelling (.act action), fun word member => ?_⟩
    obtain ⟨index, _, same⟩ := List.mem_map.mp member
    exact same ▸ fillers index
  | illegal => simpa [phrase] using ⟨spelling .loop, fillers 0⟩
  | nothing => contradiction
  | unknown word foreign => simpa [phrase] using word

theorem printRead (fillers : ∀ index, Token.Word (filler index))
    (sayable : Sayable instruction) : read (print filler instruction) = instruction := by
  by_cases nothing : instruction = .unknown ""
  · subst instruction
    rfl
  · rw [read, print, Token.wordsSpaced (phraseSolid fillers sayable nothing)]
    exact spelledOnly (phraseSpells sayable nothing)

end Fillers

theorem textsSay :
    (∀ instruction, (∃ text, read text = instruction) ↔ Sayable instruction) ∧
    ∀ filler : Nat → String, (∀ index, Token.Word (filler index)) →
      (∀ instruction, Sayable instruction → read (print filler instruction) = instruction) ∧
      ∀ text, read (print filler (read text)) = read text := by
  refine ⟨fun instruction => ⟨?_, fun sayable => ?_⟩, fun filler fillers => ⟨?_, ?_⟩⟩
  · intro ⟨text, same⟩
    exact same ▸ readSayable text
  · have fillers (index : Nat) : Token.Word "x" := by decide
    exact ⟨_, printRead fillers sayable⟩
  · exact fun instruction sayable => printRead fillers sayable
  · exact fun text => printRead fillers (readSayable text)

theorem oddPhrasesSaid :
    let filler : Nat → String := fun index => if index = 0 then "end" else "do"
    (∀ index, Token.Word (filler index)) ∧
      Sayable (.loop "not" (.named "18446744073709551616")) ∧
      print filler (.malformed (.act .incr) (.tooMany 3)) = "incr end do do" ∧
      read "incr end do do" = .malformed (.act .incr) (.tooMany 3) ∧
      read (print filler (.loop "do" (.literal 18446744073709551615))) =
        .loop "do" (.literal 18446744073709551615) ∧
      read (print filler (read "while end not +007 do")) = .loop "end" (.literal 7) ∧
      (¬ ∃ text, read text = .malformed .close .missingArgument) ∧
      ¬ ∃ text, read text = .malformed (.act .clear) (.tooMany 1) := by
  intro filler
  obtain ⟨exactly, prints⟩ := textsSay
  have fillers (index : Nat) : Token.Word (filler index) := by
    dsimp only [filler]
    split
    · decide
    · decide
  obtain ⟨printed, again⟩ := prints filler fillers
  have large : Sayable (.loop "not" (.named "18446744073709551616")) :=
    (exactly _).mp ⟨"while not not 18446744073709551616 do", by decide⟩
  have three := printed (.malformed (.act .incr) (.tooMany 3)) (.tooMany (by decide))
  have limit := printed (.loop "do" (.literal 18446744073709551615)) (.literal (by decide))
  have seven : read "while end not +007 do" = .loop "end" (.literal 7) := by decide
  refine ⟨fillers, large, by decide, three, limit, ?_, ?_, ?_⟩
  · rw [again, seven]
  · intro said
    have sayable := (exactly _).mp said
    cases sayable with
    | missing other => exact other rfl
  · intro said
    have sayable := (exactly _).mp said
    cases sayable with
    | tooMany several => contradiction

end Instruction
end CounterLang
