import CounterLang.CommandLine.Options
import CounterLang.Folder
import CounterLang.Session

/-! Answering a command line. Program text goes before files, and without both the name of one
file is asked for. The programs of a batch run in order, each on a store of its own and behind
a line with its name. The first failure ends the batch, and what was written before it stays
written. -/
namespace CounterLang

structure Response where
  status : Nat
  stdout : String
  failure : Option String
  deriving DecidableEq, Repr

namespace Response

def success (stdout : String) : Response := ⟨0, stdout, none⟩

def failed (message : String) : Response := ⟨1, "", some message⟩

def misused : Response := ⟨2, "", none⟩

def after (stdout : String) (response : Response) : Response :=
  { response with stdout := stdout ++ response.stdout }

def mark : String := "(!) "

def stderr (response : Response) : String :=
  match response.failure with
  | some message => mark ++ message ++ "\n"
  | none => ""

def failures (response : Response) : List String :=
  let pieces := response.stderr.toList.splitOn '\n'
  (pieces.filter fun piece => mark.toList.isPrefixOf piece).map String.ofList

end Response

namespace CommandLine

def promptText : String := "Enter a filename: "

def header (file : String) : String := "Running program: " ++ file ++ "\n"

def unreadable (file : String) (failure : ReadFailure) : String :=
  "Failed to read the input file '" ++ file ++ "'. Perhaps this file does not exist? (" ++
    failure.reason ++ ")"

def unreadableName : String :=
  "Failed to read a filename: " ++ ReadFailure.badEncoding.reason ++ "."

def shown (sorted : Bool) (store : Store) : String :=
  if sorted then Store.written store.sorted else store.display

def runText (limit : Nat) (sorted : Bool) (source : String) : Option Response :=
  (Execution.fresh limit source).map fun result =>
    match result with
    | .ok (store, _) => .success (shown sorted store)
    | .error fault => .failed fault.message

def decoded (bytes : Except ReadFailure ByteArray) : Except ReadFailure String := do
  match String.fromUTF8? (← bytes) with
  | some text => return text
  | none => throw .badEncoding

def runFile (limit : Nat) (files : String → Except ReadFailure ByteArray) (sorted : Bool)
    (file : String) : Option Response :=
  match decoded (files file) with
  | .ok source => runText limit sorted source
  | .error failure => some (.failed (unreadable file failure))

def runBatch (limit : Nat) (files : String → Except ReadFailure ByteArray) (sorted : Bool) :
    List String → Option Response
  | [] => some (.success "")
  | file :: rest => do
    let response ← runFile limit files sorted file
    let begun := response.after (header file)
    if begun.status = 0 then
      let later ← runBatch limit files sorted rest
      return later.after begun.stdout
    else return begun

/- Only the first line of the input is read. It must be well encoded as a whole
before blanks around the name are dropped. -/
def promptedFile (input : ByteArray) : Option String :=
  let line := input.data.toList.takeWhile (· ≠ '\n'.toUInt8)
  (String.fromUTF8? ⟨line.toArray⟩).map fun text => String.ofList (Text.trim text.toList)

def runPrompted (limit : Nat) (files : String → Except ReadFailure ByteArray) (sorted : Bool)
    (input : ByteArray) : Option Response :=
  match promptedFile input with
  | some file => runFile limit files sorted file
  | none => some (.failed unreadableName)

end CommandLine

namespace Response
open CommandLine

def ofOptions (limit : Nat) (files : String → Except ReadFailure ByteArray) (input : ByteArray)
    (options : Options) : Option Response :=
  match options.source, options.files with
  | some source, _ => runText limit options.sorted source
  | none, [] => (runPrompted limit files options.sorted input).map (.after promptText)
  | none, names => runBatch limit files options.sorted names

def through (read : List String → Except Response Options) (limit : Nat)
    (files : String → Except ReadFailure ByteArray) (input : ByteArray)
    (arguments : List String) : Option Response :=
  match read arguments with
  | .ok options => ofOptions limit files input options
  | .error response => some response

def ofExit : Exit → Response
  | .notice text => .success text
  | .misused _ => .misused

def readArguments (arguments : List String) : Except Response Options :=
  (Options.read arguments).mapError ofExit

def ofArguments (limit : Nat) (files : String → Except ReadFailure ByteArray)
    (input : ByteArray) (arguments : List String) : Option Response :=
  through readArguments limit files input arguments

end Response
end CounterLang
