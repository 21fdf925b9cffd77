import GuardedRegions.Command.File
import GuardedRegions.Document.Build
import GuardedRegions.Document.Read
import GuardedRegions.Document.Report
import GuardedRegions.Flow.Drawing

/-!
# Commands

There are two commands. One reconstructs the try regions of the methods of a document and reports on
each, the other draws the graph of one method. The methods that a command is about are all built
before anything else is done, so that nothing is written if one of them cannot be.

`Command.answer` is the text that a command prints or writes, given the content of its input.
-/

namespace GuardedRegions

/-- How reports are written. -/
inductive Format where
  | text
  | json
deriving DecidableEq, Repr

namespace Format

def ofName? : String → Option Format
  | "text" => some text
  | "json" => some json
  | _ => none

def unknownMessage (name : String) : String :=
  s!"unknown format '{name}', expected text or json"

end Format

/-- What a command does with the methods of its input. -/
inductive Task where
  /-- Reconstruct the methods, or those of a name, and report on them. -/
  | process (method : Option String) (format : Format) (options : Options)
  /-- Draw the graph of the first method of a name. -/
  | draw (method : String)
deriving DecidableEq, Repr

/-- A task, the file that it is about, and the file that its answer goes to, if it is not printed. -/
structure Command where
  input : String
  output : Option String := none
  task : Task
deriving DecidableEq, Repr

namespace Command

/-- Builds the methods of a document, or those of a name, which has to occur. -/
def methodsOf (text : String) (only : Option String) : Except Error (List Method) := do
  let document ← (Document.read text).mapError fun e => .json e.message
  match only with
  | none => document.methods.mapM (·.toMethod)
  | some name =>
    match document.methods.filter (·.name == name) with
    | [] => throw (.unknownMethod name)
    | selected => selected.mapM (·.toMethod)

def reportText (format : Format) (options : Options) (methods : List Method) :
    Except Fault String := do
  let reports ← methods.mapM fun m => do Report.ofReconstruction (← m.process options)
  return match format with
    | .text => Report.plainText reports
    | .json => Report.jsonText reports

/-- The drawing of a method, its handler entries marked. -/
def drawing (m : Method) : String := m.graph.draw (m.tryBlocks.flatMap (·.entries))

def perform (text : String) : Task → Except Fault (Except Error String)
  | .process method format options =>
    match methodsOf text method with
    | .error e => .ok (.error e)
    | .ok methods => .ok <$> reportText format options methods
  | .draw method =>
    .ok <| match methodsOf text (some method) with
      | .error e => .error e
      | .ok [] => .error (.unknownMethod method)
      | .ok (m :: _) => .ok (drawing m)

/-- The text that a command prints or writes, given the content of its input. -/
def answer (c : Command) (content : Except FileProblem ByteArray) :
    Except Fault (Except Error String) :=
  match content.bind textOf with
  | .error problem => .ok (.error (problem.reading c.input))
  | .ok text => perform text c.task

end Command

end GuardedRegions
