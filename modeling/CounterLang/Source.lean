import CounterLang.Instruction

/-! Statements, faults and the reading of program text. A fault has one cause, with one wording,
and carries the line it belongs to. A statement keeps its text in single spaces and its whole
trimmed line; nothing ties the text to the instruction, so a program may also be put together
by hand. Lines are looked at in order and the terminator of a line before its statements, so
the first offence decides whether a text can be read. -/
namespace CounterLang

inductive Cause where
  | missingTerminator
  | emptyStatement
  | missingArgument (keyword : Keyword)
  | tooManyArguments (keyword : Keyword) (found : Nat)
  | illegalLoop
  | missingEnd
  | redundantEnd
  | undefinedOperation (word : String)
  | undefinedVariable (name : String)
  | belowZero (name : String) (text : String)
  | aboveLimit (name : String) (text : String)
  deriving DecidableEq, Repr

structure Fault where
  line : Nat
  sourceLine : String
  cause : Cause
  deriving DecidableEq, Repr

def Cause.message : Cause → String
  | .missingTerminator => "Expected ';' at the end of the line"
  | .emptyStatement => "Redundant ';'"
  | .missingArgument keyword => s!"Expected an argument after '{keyword.spelling}'"
  | .tooManyArguments keyword found =>
    s!"Expected one argument after '{keyword.spelling}', got {found}"
  | .illegalLoop => "Illegal while loop syntax, expected `while <var> not <target> do`"
  | .missingEnd => "Missing 'end' for the while loop"
  | .redundantEnd => "Redundant loop end"
  | .undefinedOperation word => s!"Undefined operation '{word}'"
  | .undefinedVariable name => s!"Access to undefined variable '{name}'"
  | .belowZero name text => s!"Illegal operation `{text};` would make '{name}' negative"
  | .aboveLimit name text => s!"Operation `{text};` overflows '{name}'"

def Fault.message (fault : Fault) : String :=
  s!"Error on line {fault.line}: {fault.cause.message} (`{fault.sourceLine}`)."

structure Statement where
  text : String
  sourceLine : String
  line : Nat
  instruction : Instruction
  deriving DecidableEq, Repr

namespace Statement

def opens (statement : Statement) : Bool := statement.instruction.opens

def closes (statement : Statement) : Bool := statement.instruction.closes

def fault (statement : Statement) (cause : Cause) : Fault :=
  ⟨statement.line, statement.sourceLine, cause⟩

end Statement

abbrev Program := Array Statement

namespace Source

def terminator : Char := ';'

def statementOf (number : Nat) (sourceLine : String) (fragment : List Char) :
    Except Fault Statement :=
  match Text.runs Text.isBlank fragment with
  | [] => .error ⟨number, sourceLine, .emptyStatement⟩
  | pieces =>
    let text := String.ofList ([' '].intercalate pieces)
    .ok ⟨text, sourceLine, number, Instruction.read text⟩

def readLine (number : Nat) (raw : List Char) : Except Fault (List Statement) :=
  let line := Text.trim raw
  let sourceLine := String.ofList line
  if line.getLast? = some terminator then
    (line.dropLast.splitOn terminator).mapM (statementOf number sourceLine)
  else .error ⟨number, sourceLine, .missingTerminator⟩

def read (source : String) : Except Fault Program := do
  let numbered := (Text.lines source.toList).zipIdx 1
  let perLine ← numbered.mapM fun (raw, number) => readLine number raw
  return perLine.flatten.toArray

end Source
end CounterLang
