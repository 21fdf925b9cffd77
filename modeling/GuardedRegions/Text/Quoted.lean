import GuardedRegions.Text.Printable

/-!
# Quoted texts in messages

A message quotes a text between double quotes. Quotes, backslashes and line ends inside it are
written with a backslash, and characters that leave no mark of their own by their numbers.
-/

namespace GuardedRegions.Text

def quoteChar (c : Char) : String :=
  match c with
  | '\x00' => "\\0"
  | '\t' => "\\t"
  | '\n' => "\\n"
  | '\r' => "\\r"
  | '"' => "\\\""
  | '\\' => "\\\\"
  | c =>
    if isPrintable c then c.toString
    else "\\u\x7b" ++ String.ofList (Nat.toDigits 16 c.toNat) ++ "\x7d"

def quote (s : String) : String := "\"" ++ String.join (s.toList.map quoteChar) ++ "\""

end GuardedRegions.Text
