import CounterLang.CommandLine.Response

/-! The command line on real files. Files are read as they are needed, and the
limit of a run is raised until the run has ended. -/
namespace CounterLang.CommandLine

def readFailure : IO.Error → ReadFailure
  | .noFileOrDirectory .. => .absent
  | .inappropriateType _ 21 _ => .isFolder
  | .inappropriateType .. => .notFolder
  | failure => .other (toString failure)

def readBytes (file : String) : IO (Except ReadFailure ByteArray) := do
  if file.isEmpty then return .error .absent
  if file.contains '\x00' then return .error .nulInName
  try
    return .ok (← IO.FS.readBinFile file)
  catch failure => return .error (readFailure failure)

partial def firstLine (input : IO.FS.Stream) (line : ByteArray) : IO ByteArray := do
  let next ← input.read 1
  if next.isEmpty || next.data.toList = ['\n'.toUInt8] then return line
  firstLine input (line ++ next)

partial def settle (limit : Nat) (attempt : Nat → Option Response) : IO Response :=
  match attempt limit with
  | some response => return response
  | none => settle (2 * limit) attempt

def emit (response : Response) : IO UInt32 := do
  IO.print response.stdout
  (← IO.getStdout).flush
  IO.eprint response.stderr
  return response.status.toUInt32

def answer (options : Options) (file : Option String) : IO UInt32 := do
  let content ← match file with
    | some name => readBytes name
    | none => pure (.error .absent)
  emit (← settle 1024 fun limit => Response.ofOptions limit (fun _ => content) .empty options)

def batch (sorted : Bool) : List String → IO UInt32
  | [] => return 0
  | file :: rest => do
    let status ← answer ⟨none, sorted, [file]⟩ (some file)
    if status = 0 then batch sorted rest else return status

def prompted (sorted : Bool) : IO UInt32 := do
  IO.print promptText
  (← IO.getStdout).flush
  let line ← firstLine (← IO.getStdin) .empty
  let content ← match promptedFile line with
    | some name => readBytes name
    | none => pure (.error .absent)
  emit (← settle 1024 fun limit => runPrompted limit (fun _ => content) sorted line)

def run (arguments : List String) : IO UInt32 :=
  match Options.read arguments with
  | .error (.misused misuse) => do
    IO.eprintln misuse.message
    return 2
  | .error (.notice text) => emit (.success text)
  | .ok options =>
    match options.source, options.files with
    | some _, _ => answer options none
    | none, [] => prompted options.sorted
    | none, files => batch options.sorted files

end CounterLang.CommandLine

def main (arguments : List String) : IO UInt32 :=
  CounterLang.CommandLine.run arguments
