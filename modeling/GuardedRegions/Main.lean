import GuardedRegions.Command.Arguments

/-!
# The program

The outer layer: it fetches the file that a command line names, and prints or writes the answer. The
exit code is zero if all went well, one after an error, and two if the command line was refused.
-/

open GuardedRegions

def problemOf : IO.Error → FileProblem
  | .noFileOrDirectory .. => .missing
  | e => .other (toString e)

def complain (code : UInt32) (text : String) : IO UInt32 := do
  IO.eprintln s!"Error: {text}"
  return code

def deliver (output : Option String) (text : String) : IO UInt32 := do
  match output with
  | none =>
    IO.print text
    return 0
  | some path =>
    try
      IO.FS.writeFile path text
      return 0
    catch e => complain 1 ((problemOf e).writing path).message

def main (arguments : List String) : IO UInt32 := do
  match Command.parse arguments with
  | .error e => complain 2 e.message
  | .ok .version =>
    IO.print Command.versionText
    return 0
  | .ok (.command c) =>
    let content ← try pure (.ok (← IO.FS.readBinFile c.input)) catch e => pure (.error (problemOf e))
    match c.answer content with
    | .error _ => complain 101 "a region tree or a graph is broken"
    | .ok (.error e) => complain 1 e.message
    | .ok (.ok text) => deliver c.output text
