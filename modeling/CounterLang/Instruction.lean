import CounterLang.Text

/-! Keywords, the words of a statement and what they instruct. A word is a keyword or a mark
of a loop header only as a whole and in lower case. Every statement has an instruction, also
one that cannot be executed: its problem stays with it and is raised only when the statement
is reached. A loop header in the wrong form opens a block all the same. -/
namespace CounterLang

inductive Action where
  | clear
  | incr
  | decr
  deriving DecidableEq, Repr

def Action.spelling : Action → String
  | .clear => "clear"
  | .incr => "incr"
  | .decr => "decr"

inductive Keyword where
  | act (action : Action)
  | loop
  | close
  deriving DecidableEq, Repr

def Keyword.spelling : Keyword → String
  | .act action => action.spelling
  | .loop => "while"
  | .close => "end"

inductive Token where
  | keyword (keyword : Keyword)
  | notMark
  | doMark
  | plain
  deriving DecidableEq, Repr

namespace Token

def ofWord : String → Token
  | "clear" => .keyword (.act .clear)
  | "incr" => .keyword (.act .incr)
  | "decr" => .keyword (.act .decr)
  | "while" => .keyword .loop
  | "end" => .keyword .close
  | "not" => .notMark
  | "do" => .doMark
  | _ => .plain

def isSeparator (c : Char) : Bool :=
  c = ' ' || c = '\t' || c = '\r' || c = '\n' || c = '\x0c'

def words (text : String) : List String :=
  (Text.runs isSeparator text.toList).map String.ofList

def scan (text : String) : List (Token × String) :=
  (words text).map fun word => (ofWord word, word)

theorem keywordSpelling {word : String} {keyword : Keyword} :
    ofWord word = .keyword keyword ↔ word = keyword.spelling := by
  constructor
  · intro h
    unfold ofWord at h
    split at h <;> cases h <;> rfl
  · rintro rfl
    cases keyword with
    | act action => cases action <;> rfl
    | loop => rfl
    | close => rfl

end Token

inductive Operand where
  | literal (value : UInt64)
  | named (name : String)
  deriving DecidableEq, Repr

def Operand.read (word : String) : Operand :=
  match Numeral.read? word.toList with
  | some value => .literal value
  | none => .named word

inductive Problem where
  | missingArgument
  | tooMany (found : Nat)
  | illegalLoop
  deriving DecidableEq, Repr

inductive Instruction where
  | act (action : Action) (name : String)
  | loop (control : String) (target : Operand)
  | close
  | malformed (keyword : Keyword) (problem : Problem)
  | unknown (word : String)
  deriving DecidableEq, Repr

namespace Instruction

def keyword? : Instruction → Option Keyword
  | .act action _ => some (.act action)
  | .loop _ _ => some .loop
  | .close => some .close
  | .malformed keyword _ => some keyword
  | .unknown _ => none

def opens (instruction : Instruction) : Bool := instruction.keyword? = some .loop

def closes (instruction : Instruction) : Bool := instruction.keyword? = some .close

theorem closesNotOpens {instruction : Instruction} (h : instruction.opens = true) :
    instruction.closes = false := by
  simp only [opens, closes, decide_eq_true_eq, decide_eq_false_iff_not] at *
  simp [h]

def actionOn (action : Action) : List String → Instruction
  | [] => .malformed (.act action) .missingArgument
  | [name] => .act action name
  | arguments => .malformed (.act action) (.tooMany arguments.length)

def loopOn : List String → Instruction
  | [] => .malformed .loop .missingArgument
  | [control, "not", target, "do"] => .loop control (Operand.read target)
  | _ => .malformed .loop .illegalLoop

/- The first word decides. A closing statement takes no arguments and does
not look at any that follow. -/
def ofWords : List String → Instruction
  | [] => .unknown ""
  | head :: arguments =>
    match Token.ofWord head with
    | .keyword (.act action) => actionOn action arguments
    | .keyword .loop => loopOn arguments
    | .keyword .close => .close
    | .notMark | .doMark | .plain => .unknown head

def read (text : String) : Instruction := ofWords (Token.words text)

end Instruction

end CounterLang
