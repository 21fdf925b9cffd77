import GuardedRegions.Document.Write
import GuardedRegions.Wrapping.Reconstruct

/-!
# Reports

A report tells what a reconstruction has done to a method, and shows the regions that it left. Where
the reconstruction failed, the report gives the error, and its counts are zero.
-/

namespace GuardedRegions

/-- What is told of one method. -/
structure Report where
  name : String
  error : Option String
  summary : Summary
  flags : List String
  warnings : List String
  regions : Outline
deriving DecidableEq, Repr

namespace Report

def ofReconstruction (r : Reconstruction) : Except Fault Report := do
  let (summary, error) := match r.result with
    | .ok summary => (summary, none)
    | .error e => ({}, some e.message)
  return {
    name := r.method.name
    error
    summary
    flags := r.method.flags.map Flag.name
    warnings := r.method.warnings
    regions := ← r.method.tree.outline }

def toJson (r : Report) : Json.Value :=
  .record <| [("name", .string r.name)]
    ++ (r.error.map fun e => ("error", .string e)).toList
    ++ [("wrapped", .number r.summary.wrapped),
      ("failed", .number r.summary.failed),
      ("dropped_overlaps", .number r.summary.dropped),
      ("passes", .number r.summary.passes),
      ("flags", .list (r.flags.map .string)),
      ("warnings", .list (r.warnings.map .string)),
      ("regions", r.regions.toJson)]

/-- What came of the reconstruction, on one line. -/
def resultLine (r : Report) : String :=
  match r.error with
  | some e => s!"error: {e}"
  | none =>
    s!"wrapped: {r.summary.wrapped}, failed: {r.summary.failed}, "
      ++ s!"dropped: {r.summary.dropped}, passes: {r.summary.passes}"

def lines (r : Report) : List String :=
  let flags := if r.flags.isEmpty then [] else ["flags: " ++ ", ".intercalate r.flags]
  s!"method {r.name}" ::
    (r.resultLine :: flags ++ r.warnings.map ("warning: " ++ ·) ++ r.regions.lines).map
      (Text.indent 1)

def plainText (rs : List Report) : String := Text.ofLines (rs.flatMap lines)

def jsonText (rs : List Report) : String := (Json.Value.list (rs.map toJson)).pretty 0 ++ "\n"

end Report

end GuardedRegions
