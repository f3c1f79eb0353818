/-! Reading files by name from one working folder, whose own folders are empty. A
name is a path: its parts are entered from left to right, nothing can be
entered through a file, and what lies above the working folder is not
visible. -/
namespace CounterLang

inductive ReadFailure where
  | absent
  | isFolder
  | notFolder
  | tooLong
  | nulInName
  | badEncoding
  | other (reason : String)
  deriving DecidableEq, Repr

def ReadFailure.reason : ReadFailure → String
  | .absent => "No such file or directory (os error 2)"
  | .isFolder => "Is a directory (os error 21)"
  | .notFolder => "Not a directory (os error 20)"
  | .tooLong => "File name too long (os error 36)"
  | .nulInName => "file name contained an unexpected NUL byte"
  | .badEncoding => "stream did not contain valid UTF-8"
  | .other reason => reason

inductive Node where
  | file (bytes : ByteArray)
  | folder

abbrev Folder := List (String × Node)

namespace Folder

inductive Place where
  | working
  | inner
  | above
  | file (bytes : ByteArray)

def partLimit : Nat := 255

def pathLimit : Nat := 4096

def enter (folder : Folder) (place : Place) (part : String) : Except ReadFailure Place :=
  match place with
  | .file _ => .error .notFolder
  | place =>
    if part = "" ∨ part = "." then .ok place
    else if part = ".." then
      match place with
      | .inner => .ok .working
      | _ => .ok .above
    else if partLimit < part.utf8ByteSize then .error .tooLong
    else
      match place, folder.lookup part with
      | .working, some (.file bytes) => .ok (.file bytes)
      | .working, some .folder => .ok .inner
      | _, _ => .error .absent

/- A path that starts at the root starts above the working folder. -/
def bytes (folder : Folder) (path : String) : Except ReadFailure ByteArray := do
  let characters := path.toList
  if '\x00' ∈ characters then throw .nulInName
  if characters = [] then throw .absent
  if pathLimit ≤ path.utf8ByteSize then throw .tooLong
  let start := if characters.head? = some '/' then Place.above else Place.working
  match ← ((characters.splitOn '/').map String.ofList).foldlM (enter folder) start with
  | .file bytes => return bytes
  | _ => throw .isFolder

end Folder
end CounterLang
