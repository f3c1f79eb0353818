import CounterLang.Proofs.Lockstep
import CounterLang.Proofs.Words

/-! Which words make which instruction. The forms of a statement are listed by their words,
and a text is decoded by the one form that its words have. The first word alone
says whether a statement opens or closes, so it alone decides where bodies end. -/
namespace CounterLang
namespace Instruction

/- The forms of statements. Any word may stand where a name does, a keyword as well. -/
inductive Spells : List String → Instruction → Prop where
  | nothing : Spells [] (.unknown "")
  | unknown {word others} (foreign : ∀ keyword : Keyword, word ≠ keyword.spelling) :
      Spells (word :: others) (.unknown word)
  | close {others} : Spells (Keyword.close.spelling :: others) .close
  | missing {keyword : Keyword} (other : keyword ≠ .close) :
      Spells [keyword.spelling] (.malformed keyword .missingArgument)
  | act {action : Action} {name} : Spells [action.spelling, name] (.act action name)
  | tooMany {action : Action} {others} (several : 2 ≤ others.length) :
      Spells (action.spelling :: others) (.malformed (.act action) (.tooMany others.length))
  | loop {control target} :
      Spells [Keyword.loop.spelling, control, "not", target, "do"] (.loop control (.read target))
  | illegal {others} (some : others ≠ [])
      (other : ∀ control target, others ≠ [control, "not", target, "do"]) :
      Spells (Keyword.loop.spelling :: others) (.malformed .loop .illegalLoop)

theorem foreignWords {word : String} (foreign : ∀ keyword : Keyword, word ≠ keyword.spelling)
    (others : List String) : ofWords (word :: others) = .unknown word := by
  cases token : Token.ofWord word with
  | keyword keyword => exact absurd (Token.keywordSpelling.mp token) (foreign keyword)
  | notMark => simp only [ofWords, token]
  | doMark => simp only [ofWords, token]
  | plain => simp only [ofWords, token]

theorem keywordWords (keyword : Keyword) (others : List String) :
    ofWords (keyword.spelling :: others) =
      match keyword with
      | .act action => actionOn action others
      | .loop => loopOn others
      | .close => .close := by
  have token : Token.ofWord keyword.spelling = .keyword keyword := Token.keywordSpelling.mpr rfl
  simp only [ofWords, token]
  cases keyword <;> rfl

theorem actionSpelled (action : Action) (others : List String) :
    Spells (action.spelling :: others) (actionOn action others) := by
  cases others with
  | nil =>
    have other : Keyword.act action ≠ .close := by simp
    exact .missing other
  | cons name others =>
    cases others with
    | nil => exact .act
    | cons other rest => exact .tooMany (by simp)

theorem loopSpelled (others : List String) :
    Spells (Keyword.loop.spelling :: others) (loopOn others) := by
  unfold loopOn
  split
  · have other : Keyword.loop ≠ .close := by simp
    exact .missing other
  · exact .loop
  · rename_i some other
    exact .illegal some other

theorem wordsSpelled (words : List String) : Spells words (ofWords words) := by
  cases words with
  | nil => exact .nothing
  | cons word others =>
    by_cases known : ∃ keyword : Keyword, word = keyword.spelling
    · obtain ⟨keyword, same⟩ := known
      subst word
      rw [keywordWords]
      cases keyword with
      | act action => exact actionSpelled action others
      | loop => exact loopSpelled others
      | close => exact .close
    · have foreign := not_exists.mp known
      rw [foreignWords foreign]
      exact .unknown foreign

theorem spelledOnly {words : List String} {instruction : Instruction}
    (spells : Spells words instruction) : ofWords words = instruction := by
  cases spells with
  | nothing => rfl
  | unknown foreign => exact foreignWords foreign _
  | close => exact keywordWords .close _
  | @missing keyword other =>
    rw [keywordWords]
    cases keyword with
    | act action => rfl
    | loop => rfl
    | close => exact absurd rfl other
  | @act action name => exact keywordWords (.act action) _
  | @tooMany action others several =>
    rw [← Keyword.spelling, keywordWords]
    cases others with
    | nil => simp at several
    | cons name others =>
      cases others with
      | nil => simp at several
      | cons other rest => rfl
  | loop => exact keywordWords .loop _
  | illegal some other =>
    rw [keywordWords]
    dsimp only [loopOn]
    split
    · exact absurd rfl some
    · exact absurd rfl (other _ _)
    · rfl

theorem spellsWords {words : List String} {instruction : Instruction} :
    ofWords words = instruction ↔ Spells words instruction :=
  ⟨fun same => same ▸ wordsSpelled words, spelledOnly⟩

theorem spellsAct {words : List String} {action : Action} {name : String}
    (spells : Spells words (.act action name)) : words = [action.spelling, name] := by
  cases spells
  rfl

theorem keywordKept (keyword : Keyword) (others : List String) :
    (ofWords (keyword.spelling :: others)).keyword? = some keyword := by
  rw [keywordWords]
  cases keyword with
  | act action =>
    simp only [actionOn]
    split <;> rfl
  | loop =>
    simp only [loopOn]
    split <;> rfl
  | close => rfl

theorem keywordFirst (words : List String) (keyword : Keyword) :
    (ofWords words).keyword? = some keyword ↔ words.head? = some keyword.spelling := by
  constructor
  · intro found
    cases words with
    | nil => contradiction
    | cons word others =>
      by_cases known : ∃ other : Keyword, word = other.spelling
      · obtain ⟨other, same⟩ := known
        subst word
        rw [keywordKept] at found
        cases found
        rfl
      · rw [foreignWords (not_exists.mp known)] at found
        contradiction
  · intro first
    obtain ⟨others, same⟩ := List.head?_eq_some_iff.mp first
    rw [same]
    exact keywordKept keyword others

end Instruction

namespace Statement

def Decoded (statement : Statement) : Prop := statement.instruction = .read statement.text

def firstWord? (statement : Statement) : Option String := (Token.words statement.text).head?

theorem opensFirst {statement : Statement} (decoded : statement.Decoded) :
    statement.opens = true ↔ statement.firstWord? = some Keyword.loop.spelling := by
  rw [opens, decoded, Instruction.opens, decide_eq_true_iff]
  exact Instruction.keywordFirst _ _

theorem closesFirst {statement : Statement} (decoded : statement.Decoded) :
    statement.closes = true ↔ statement.firstWord? = some Keyword.close.spelling := by
  rw [closes, decoded, Instruction.closes, decide_eq_true_iff]
  exact Instruction.keywordFirst _ _

theorem bracketsFirst {left right : Statement} (decoded : left.Decoded) (also : right.Decoded)
    (same : left.firstWord? = right.firstWord?) : left.brackets = right.brackets := by
  have opens : left.opens = right.opens := by
    rw [Bool.eq_iff_iff, opensFirst decoded, opensFirst also, same]
  have closes : left.closes = right.closes := by
    rw [Bool.eq_iff_iff, closesFirst decoded, closesFirst also, same]
  rw [brackets, brackets, opens, closes]

end Statement

theorem readDecoded {source : String} {program : Program}
    (parsed : Source.read source = .ok program) : ∀ statement ∈ program.toList,
      statement.Decoded := by
  intro statement member
  obtain ⟨words, phrase, same⟩ := Source.readPlain parsed statement member
  rw [← same]
  rfl

theorem firstWordsAlike {left right : List Statement}
    (decoded : ∀ statement ∈ left, statement.Decoded)
    (also : ∀ statement ∈ right, statement.Decoded)
    (same : left.map Statement.firstWord? = right.map Statement.firstWord?) :
    left.map Statement.brackets = right.map Statement.brackets := by
  induction left generalizing right with
  | nil => simpa using same
  | cons statement left ih =>
    cases right with
    | nil => simp at same
    | cons other right =>
      obtain ⟨first, rest⟩ := List.cons.inj same
      obtain ⟨here, later⟩ := List.forall_mem_cons.mp decoded
      obtain ⟨there, beyond⟩ := List.forall_mem_cons.mp also
      simp only [List.map_cons, Statement.bracketsFirst here there first, ih later beyond rest]

theorem wordsDecide :
    (∀ text, Text.Spaced Token.isSeparator text.toList ((Token.words text).map String.toList) ∧
      (∀ instruction, Instruction.read text = instruction ↔
        Instruction.Spells (Token.words text) instruction) ∧
      (∀ keyword : Keyword, (Instruction.read text).keyword? = some keyword ↔
        (Token.words text).head? = some keyword.spelling) ∧
      ((Instruction.read text).opens = true ↔ (Token.words text).head? = some "while") ∧
      ((Instruction.read text).closes = true ↔ (Token.words text).head? = some "end")) ∧
    (∀ source program, Source.read source = .ok program →
      ∀ statement ∈ program.toList, statement.Decoded) ∧
    ∀ left right : List Statement, (∀ statement ∈ left, statement.Decoded) →
      (∀ statement ∈ right, statement.Decoded) →
      left.map Statement.firstWord? = right.map Statement.firstWord? →
      Nesting.closing? left = Nesting.closing? right := by
  refine ⟨fun text => ?_, fun _ _ parsed => readDecoded parsed, ?_⟩
  · have keyword := Instruction.keywordFirst (Token.words text)
    refine ⟨?_, fun _ => Instruction.spellsWords, keyword, ?_, ?_⟩
    · apply Text.runsSpaced.mp
      simp [Token.words, Function.comp_def]
    · exact decide_eq_true_iff.trans (keyword .loop)
    · exact decide_eq_true_iff.trans (keyword .close)
  · intro left right decoded also same
    exact Nesting.closingBrackets (firstWordsAlike decoded also same) 0 0

theorem nearMissesDecided :
    let left : Program :=
      #[⟨"while whilex", "while whilex; end of it;end;", 1, .malformed .loop .illegalLoop⟩,
        ⟨"end of it", "while whilex; end of it;end;", 1, .close⟩,
        ⟨"end", "while whilex; end of it;end;", 1, .close⟩]
    let right : Program :=
      #[⟨"while not not do do", "while not not do do; end; end nots;", 1,
          .loop "not" (.named "do")⟩,
        ⟨"end", "while not not do do; end; end nots;", 1, .close⟩,
        ⟨"end nots", "while not not do do; end; end nots;", 1, .close⟩]
    Instruction.Spells ["while", "not", "not", "do", "do"] (.loop "not" (.named "do")) ∧
      Instruction.Spells ["While", "x"] (.unknown "While") ∧
      Source.read "while whilex; end of it;end;" = .ok left ∧
      Source.read "while not not do do; end; end nots;" = .ok right ∧
      Nesting.closing? left.toList = Nesting.closing? right.toList := by
  intro left right
  obtain ⟨decodes, decoded, placed⟩ := wordsDecide
  have parsed : Source.read "while whilex; end of it;end;" = .ok left := by decide
  have also : Source.read "while not not do do; end; end nots;" = .ok right := by decide
  have loop := ((decodes "while not not do do").2.1 (.loop "not" (.named "do"))).mp (by decide)
  have word := ((decodes "While\tx").2.1 (.unknown "While")).mp (by decide)
  have same : left.toList.map Statement.firstWord? = right.toList.map Statement.firstWord? := by
    decide
  exact ⟨loop, word, parsed, also, placed _ _ (decoded _ _ parsed) (decoded _ _ also) same⟩

end CounterLang
