/-! What a command line asks for, and a reader of arguments. They are read from the left, and
asking for the version or for help ends the reading, so what stands behind it is not looked at;
the text of the help is not told here. That program text excludes files is seen only at the end.
The level of the log changes nothing that is answered, so options that raise it are taken and
forgotten. -/
namespace CounterLang

structure Options where
  source : Option String
  sorted : Bool
  files : List String
  deriving DecidableEq, Repr

inductive Misuse where
  | unknownOption (option : String)
  | repeated (option : String)
  | missingValue (option : String)
  | unwantedValue (option : String)
  | sourceWithFiles
  deriving DecidableEq, Repr

def Misuse.message : Misuse → String
  | .unknownOption option => s!"error: unexpected argument '{option}'"
  | .repeated option => s!"error: the argument '{option}' cannot be used multiple times"
  | .missingValue option => s!"error: a value is required for '{option}'"
  | .unwantedValue option => s!"error: no value is taken by '{option}'"
  | .sourceWithFiles => "error: the argument '--eval' cannot be used with files"

inductive Exit where
  | notice (text : String)
  | misused (misuse : Misuse)
  deriving DecidableEq, Repr

inductive Reading where
  | options (options : Options)
  | awaiting (options : Options)
  deriving DecidableEq, Repr

namespace Options

def versionText : String := "barebones 0.1.0\n"

def initial : Options := ⟨none, false, []⟩

def sort (options : Options) : Except Exit Options :=
  if options.sorted then .error (.misused (.repeated "--sorted"))
  else .ok { options with sorted := true }

def evaluate (options : Options) (value : Option String) : Except Exit Reading :=
  match options.source, value with
  | some _, _ => .error (.misused (.repeated "--eval"))
  | none, some source => .ok (.options { options with source := some source })
  | none, none => .ok (.awaiting options)

def addFiles (options : Options) (files : List String) : Options :=
  { options with files := options.files ++ files }

def short (options : Options) : List Char → Except Exit Reading
  | [] => .ok (.options options)
  | 's' :: rest => do short (← options.sort) rest
  | 'v' :: rest => short options rest
  | 'V' :: _ => .error (.notice versionText)
  | 'h' :: _ => .error (.notice "")
  | ['e'] => options.evaluate none
  | 'e' :: '=' :: value => options.evaluate (some (String.ofList value))
  | 'e' :: value => options.evaluate (some (String.ofList value))
  | other :: _ => .error (.misused (.unknownOption (String.ofList ['-', other])))

def long (options : Options) (name : String) (value : Option String) : Except Exit Reading :=
  match name, value with
  | "eval", value => options.evaluate value
  | "sorted", none => options.sort.map .options
  | "verbose", none => .ok (.options options)
  | "version", none => .error (.notice versionText)
  | "help", none => .error (.notice "")
  | name, some _ =>
    if name ∈ ["sorted", "verbose", "version", "help"] then
      .error (.misused (.unwantedValue ("--" ++ name)))
    else .error (.misused (.unknownOption ("--" ++ name)))
  | name, none => .error (.misused (.unknownOption ("--" ++ name)))

def longOption (options : Options) (spelled : List Char) : Except Exit Reading :=
  let name := String.ofList (spelled.takeWhile (· ≠ '='))
  match spelled.dropWhile (· ≠ '=') with
  | [] => options.long name none
  | _ :: value => options.long name (some (String.ofList value))

def argument (options : Options) (argument : String) : Except Exit Reading :=
  match argument.toList with
  | '-' :: '-' :: spelled => options.longOption spelled
  | '-' :: c :: rest => options.short (c :: rest)
  | _ => .ok (.options (options.addFiles [argument]))

def finish (options : Options) : Except Exit Options :=
  match options.source, options.files with
  | some _, _ :: _ => .error (.misused .sourceWithFiles)
  | _, _ => .ok options

def isValue (argument : String) : Bool :=
  argument = "-" || argument.toList.head? ≠ some '-'

def collect (reading : Reading) : List String → Except Exit Options
  | [] =>
    match reading with
    | .options options => options.finish
    | .awaiting _ => .error (.misused (.missingValue "--eval"))
  | argument :: rest =>
    match reading with
    | .awaiting options =>
      if isValue argument then
        Options.collect (.options { options with source := some argument }) rest
      else .error (.misused (.missingValue "--eval"))
    | .options options =>
      if argument = "--" then (options.addFiles rest).finish
      else do Options.collect (← options.argument argument) rest

def read (arguments : List String) : Except Exit Options := collect (.options initial) arguments

end Options
end CounterLang
