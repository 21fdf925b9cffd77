import GuardedRegions.Error

/-!
# Files

A command reads one file, which has to be text, and may write another one. What stands in the files
is the world's affair; what a problem with a file is called is settled here.
-/

namespace GuardedRegions

/-- Why a file could not be read or written. -/
inductive FileProblem where
  | missing
  | notText
  | notDirectory
  | isDirectory
  | other (message : String)
deriving DecidableEq, Repr

namespace FileProblem

def message : FileProblem → String
  | missing => "No such file or directory (os error 2)"
  | notText => "stream did not contain valid UTF-8"
  | notDirectory => "Not a directory (os error 20)"
  | isDirectory => "Is a directory (os error 21)"
  | other message => message

def reading (path : String) (problem : FileProblem) : Error :=
  .io s!"Failed to read {path}: {problem.message}"

def writing (path : String) (problem : FileProblem) : Error :=
  .io s!"Failed to write {path}: {problem.message}"

end FileProblem

def textOf (content : ByteArray) : Except FileProblem String :=
  match String.fromUTF8? content with
  | some text => .ok text
  | none => .error .notText

end GuardedRegions
