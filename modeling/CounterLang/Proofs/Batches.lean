import Mathlib.Data.List.Forall2
import CounterLang.CommandLine.Response
import CounterLang.Proofs.Runs

/-! Answers to command lines. What a program text shows and what a file gives are
said by relations that know of no limit and no other file. A batch is then the
files up to the first that fails, one behind the other, and the answers of the
command line are these. -/
namespace CounterLang

def Response.of : Except String String → Response
  | .ok text => .success text
  | .error message => .failed message

theorem afterAfter (first second : String) (response : Response) :
    (response.after second).after first = response.after (first ++ second) := by
  simp only [Response.after, String.append_assoc]

namespace CommandLine

inductive Shows (sorted : Bool) (source : String) : Except String String → Prop where
  | unread {fault} (refused : Source.read source = .error fault) :
      Shows sorted source (.error fault.message)
  | failed {program store fault} (read : Source.read source = .ok program)
      (finishes : program.Finishes .empty ⟨store, .failed fault⟩) :
      Shows sorted source (.error fault.message)
  | printed {program store report} (read : Source.read source = .ok program)
      (finishes : program.Finishes .empty ⟨store, .done report⟩) :
      Shows sorted source (.ok (shown sorted store))

def joined (names texts : List String) : String :=
  String.join (List.zipWith (fun file text => header file ++ text) names texts)

def trimmed (text : String) : String := String.ofList (Text.trim text.toList)

end CommandLine

namespace Response
open CommandLine

section Answers

variable {read : List String → Except Response Options}
  {files : String → Except ReadFailure ByteArray} {input : ByteArray}
  {arguments names : List String} {options : Options} {sorted : Bool}

def flags (sorted : Bool) (louder : Nat) : List String :=
  (if sorted then ["--sorted"] else []) ++ List.replicate louder "--verbose"

/- What a reader of arguments is relied on for: behind the mark that ends the options all is
files, and program text comes with its option. -/
structure Reads (read : List String → Except Response Options) : Prop where
  files : ∀ sorted louder names,
    read (flags sorted louder ++ "--" :: names) = .ok ⟨none, sorted, names⟩
  source : ∀ sorted louder source,
    read (flags sorted louder ++ ["--eval=" ++ source]) = .ok ⟨some source, sorted, []⟩
  nothing : ∀ sorted louder, read (flags sorted louder) = .ok ⟨none, sorted, []⟩

end Answers

def debt : String := "clear y; decr y;"

def folder (deep : Node) : Folder :=
  [("sum", .file "clear x; incr x;".toUTF8), ("debt", .file debt.toUTF8), ("deep", deep)]

end Response
end CounterLang
