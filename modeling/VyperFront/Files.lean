import VyperFront.Text.Basic
import VyperFront.Text.Quoted
import VyperFront.Text.Utf8

namespace VyperFront

/-- Why a path could not be read. -/
inductive FileError where
  | missing
  | isDirectory
  /-- Anything else, with the number that the system gives it and what it says. -/
  | other (number : Nat) (reason : String)
  deriving DecidableEq, Repr

namespace FileError

def reason : FileError → String
  | missing => "No such file or directory"
  | isDirectory => "Is a directory"
  | other _ reason => reason

/-- The number that the system gives the error. -/
def number : FileError → Nat
  | missing => 2
  | isDirectory => 21
  | other number _ => number

/-- The error about a path in words. -/
def message (e : FileError) (path : String) : String :=
  s!"[Errno {e.number}] {e.reason}: " ++ String.ofList (Text.quoted path.toList)

end FileError

/-- What is found at a path. -/
inductive Entry where
  | file (content : List UInt8)
  | directory
  /-- Something that is there and cannot be read. -/
  | unreadable (number : Nat) (reason : String)
  deriving DecidableEq, Repr

/-- Entries by their paths. What is not listed does not exist, apart from the
directories that what is listed lies in. -/
abbrev Files := List (String × Entry)

namespace Files

/-- The names along a path. A dot leads nowhere, and neither does a second slash. -/
def names (path : String) : List Text :=
  (path.toList.splitOn '/').filter fun name => name ≠ [] ∧ name ≠ ['.']

/-- Whether a path can only be that of a directory. -/
def wantsDirectory (path : String) : Bool :=
  "/".toList.isSuffixOf path.toList || "/.".toList.isSuffixOf path.toList

/-- What is found at the names along a path. -/
def at? (files : Files) (path : List Text) : Option Entry :=
  match files.find? (fun (place, _) => names place == path) with
  | some (_, entry) => some entry
  | none =>
    if path.isEmpty || files.any (fun (place, _) => path.isPrefixOf (names place)) then
      some .directory
    else none

def find? (files : Files) (path : String) : Option Entry :=
  if path.isEmpty then none
  else
    match files.at? (names path) with
    | some (.file content) => if wantsDirectory path then none else some (.file content)
    | entry => entry

/-- Puts an entry at a path, in the place of what was there. -/
def put (files : Files) (path : String) (entry : Entry) : Files :=
  (path, entry) :: files.filter (names ·.1 != names path)

/-- Takes away what is at a path. -/
def remove (files : Files) (path : String) : Files :=
  files.filter (names ·.1 != names path)

end Files

/-- The content of a file. -/
def Files.read (files : Files) (path : String) : Except FileError (List UInt8) :=
  match files.find? path with
  | some (.file content) => .ok content
  | some .directory => .error .isDirectory
  | some (.unreadable number reason) => .error (.other number reason)
  | none => .error .missing

/-- The text of a file, its lines ended by line feeds. All files are read as UTF-8, as they are
where the locale says so; other locales are left out. -/
def textOf (content : List UInt8) : Except Utf8.Error Text :=
  (Utf8.decode content).map Text.unifyBreaks

end VyperFront
