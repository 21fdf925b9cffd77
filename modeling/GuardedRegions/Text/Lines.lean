/-!
# Lines and lists in texts

A text that is written line by line ends every line, the last one included, with a line feed. A list
of numbers stands in brackets, with a comma and a blank between two of them.
-/

namespace GuardedRegions.Text

def ofLines (lines : List String) : String := String.join (lines.map (· ++ "\n"))

/-- A line moved to the right by a number of steps, two blanks each. -/
def indent (steps : Nat) (line : String) : String := "".pushn ' ' (2 * steps) ++ line

def numbers (ns : List Nat) : String := "[" ++ ", ".intercalate (ns.map toString) ++ "]"

end GuardedRegions.Text
