import GuardedRegions.Command.Basic

/-!
# The command line

A command line is the name of a command and its arguments: the input, and options. An option has a
long name, most have a short one as well, and most take a value, which is the next argument or
attached to the name, after an equals sign or, for a short name, directly. A value that begins with
a dash has to be attached; a dash alone is an ordinary argument. After two dashes there are no more
options. No option may be given twice.
-/

namespace GuardedRegions.Command

/-- Why a command line is refused. -/
inductive UsageError where
  | noCommand
  | unknownCommand (name : String)
  | unknownOption (name : String)
  | repeatedOption (name : String)
  | missingValue (option : String)
  | unexpectedValue (option : String)
  | invalidValue (option value : String)
  | unexpectedArgument (argument : String)
  | missingArgument (name : String)
deriving DecidableEq, Repr

/-- The options of the commands. -/
inductive Opt where
  | method
  | output
  | format
  | wrapPassLimit
  | validate
deriving DecidableEq, Repr

namespace Opt

/-- The long name of an option. -/
def long : Opt → String
  | method => "method"
  | output => "output"
  | format => "format"
  | wrapPassLimit => "wrap-pass-limit"
  | validate => "validate"

def short? : Opt → Option Char
  | method => some 'm'
  | output => some 'o'
  | format => some 'f'
  | wrapPassLimit | validate => none

def takesValue : Opt → Bool
  | validate => false
  | _ => true

end Opt

def UsageError.message : UsageError → String
  | noCommand => "a command is required: process or dot"
  | unknownCommand name => s!"unrecognized command '{name}'"
  | unknownOption name => s!"unexpected option '{name}'"
  | repeatedOption name => s!"option '{name}' cannot be used multiple times"
  | missingValue option => s!"a value is required for option '{option}'"
  | unexpectedValue option => s!"option '{option}' takes no value"
  | invalidValue option value => s!"invalid value '{value}' for '{option}'"
  | unexpectedArgument argument => s!"unexpected argument '{argument}'"
  | missingArgument name => s!"the argument '{name}' is required"

/-! ## Telling options and arguments apart -/

/-- The arguments of a command, sorted out: what is no option, and the options with their values. -/
structure Sorted where
  inputs : List String := []
  options : List (Opt × String) := []
deriving DecidableEq, Repr

namespace Sorted

/-- Notes an option, which must not have been given before. -/
def addOption (s : Sorted) (option : Opt) (value : String) : Except UsageError Sorted :=
  if s.options.any (·.1 == option) then .error (.repeatedOption option.long)
  else .ok { s with options := s.options ++ [(option, value)] }

end Sorted

/-- An argument, told apart by the dashes in front of it. -/
inductive Token where
  | endOfOptions
  | long (name : String) (value : Option String)
  | short (letter : Char) (rest : List Char)
  | plain (text : String)
deriving DecidableEq, Repr

/-- Looks at the dashes in front of an argument. -/
def Token.ofArgument (argument : String) : Token :=
  match argument.toList with
  | ['-', '-'] => .endOfOptions
  | '-' :: '-' :: cs =>
    let name := String.ofList (cs.takeWhile (· != '='))
    match cs.dropWhile (· != '=') with
    | [] => .long name none
    | _ :: value => .long name (some (String.ofList value))
  | '-' :: c :: cs => .short c cs
  | _ => .plain argument

/-- Whether an argument can be the value of the option in front of it. -/
def isValue (argument : String) : Bool :=
  match Token.ofArgument argument with
  | .plain _ => true
  | _ => false

/-- What an argument says of the options of a command. -/
inductive Mention where
  /-- Nothing, and neither does any other one after it. -/
  | endOfOptions
  | plain (text : String)
  | complete (option : Opt) (value : String)
  /-- An option, the value of which follows. -/
  | incomplete (option : Opt)
deriving DecidableEq, Repr

/-- What an argument says, given the options of the command. -/
def Mention.ofArgument (known : List Opt) (argument : String) : Except UsageError Mention :=
  match Token.ofArgument argument with
  | .endOfOptions => .ok .endOfOptions
  | .plain text => .ok (.plain text)
  | .long name value =>
    match known.find? (·.long == name) with
    | none => .error (.unknownOption name)
    | some option =>
      match option.takesValue, value with
      | true, some value => .ok (.complete option value)
      | true, none => .ok (.incomplete option)
      | false, none => .ok (.complete option "")
      | false, some _ => .error (.unexpectedValue name)
  | .short letter attached =>
    match known.find? (·.short? == some letter) with
    | none => .error (.unknownOption letter.toString)
    | some option =>
      match attached with
      | [] => .ok (.incomplete option)
      | '=' :: value => .ok (.complete option (String.ofList value))
      | value => .ok (.complete option (String.ofList value))

/-- Sorts out the arguments of a command that has some options. -/
def sortOut (known : List Opt) : List String → Sorted → Except UsageError Sorted
  | [], s => .ok s
  | argument :: rest, s => do
    match ← Mention.ofArgument known argument with
    | .endOfOptions => return { s with inputs := s.inputs ++ rest }
    | .plain text => sortOut known rest { s with inputs := s.inputs ++ [text] }
    | .complete option value => sortOut known rest (← s.addOption option value)
    | .incomplete option =>
      match rest with
      | value :: rest =>
        if isValue value then sortOut known rest (← s.addOption option value)
        else throw (.missingValue option.long)
      | [] => throw (.missingValue option.long)

/-! ## Taking the values -/

namespace Sorted

/-- The one input, a path, which is not empty. -/
def input (s : Sorted) : Except UsageError String :=
  match s.inputs with
  | [] => .error (.missingArgument "input")
  | [path] => if path.isEmpty then .error (.invalidValue "input" path) else .ok path
  | _ :: extra :: _ => .error (.unexpectedArgument extra)

def value? (s : Sorted) (option : Opt) : Option String := s.options.lookup option

def valueAs {α : Type} (s : Sorted) (option : Opt) (convert : String → Option α) :
    Except UsageError (Option α) :=
  match s.value? option with
  | none => .ok none
  | some value =>
    match convert value with
    | some x => .ok (some x)
    | none => .error (.invalidValue option.long value)

def output (s : Sorted) : Except UsageError (Option String) :=
  s.valueAs .output fun path => if path.isEmpty then none else some path

end Sorted

/-- A count of at most 64 bits, with a plus sign in front of it or without. -/
def count? (text : String) : Option Nat :=
  let digits := match text.toList with
    | '+' :: ds => ds
    | ds => ds
  if digits.isEmpty || !digits.all Char.isDigit then none
  else
    let n := Json.Numeral.natValue digits
    if n < Nat.pow 2 64 then some n else none

def parseProcess (arguments : List String) : Except UsageError Command := do
  let s ← sortOut [.method, .output, .format, .wrapPassLimit, .validate] arguments {}
  let format ← s.valueAs .format Format.ofName?
  let limit ← s.valueAs .wrapPassLimit count?
  let defaults : Options := {}
  return {
    input := ← s.input
    output := ← s.output
    task := .process (s.value? .method) (format.getD .text) {
      passLimit := limit.getD defaults.passLimit
      validate := (s.value? .validate).isSome } }

def parseDraw (arguments : List String) : Except UsageError Command := do
  let s ← sortOut [.method, .output] arguments {}
  match s.value? .method with
  | none => throw (.missingArgument "method")
  | some method => return { input := ← s.input, output := ← s.output, task := .draw method }

/-- What a command line asks for. -/
inductive Request where
  | version
  | command (c : Command)
deriving DecidableEq, Repr

def versionText : String := "trycatch-regions 0.1.0\n"

def parse : List String → Except UsageError Request
  | [] => .error .noCommand
  | "process" :: arguments => .command <$> parseProcess arguments
  | "dot" :: arguments => .command <$> parseDraw arguments
  | first :: _ =>
    match Token.ofArgument first with
    | .long "version" none | .short 'V' _ => .ok .version
    | .long name _ => .error (.unknownOption name)
    | .short letter _ => .error (.unknownOption letter.toString)
    | .endOfOptions => .error .noCommand
    | .plain name => .error (.unknownCommand name)

end GuardedRegions.Command
