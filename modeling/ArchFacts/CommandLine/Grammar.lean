import ArchFacts.Text.Pieces

/-!
# Grammars of command lines

A command line consists of words. A grammar says which flags there are and what they take, which
words without a flag belong there, and what has to be given.
-/

namespace ArchFacts.CommandLine

/-- Why a command line is not carried out. Asking for help or for the version counts too. -/
inductive UsageError where
  | nothingGiven
  | missingCommand
  | unknownCommand
  | unknownArgument
  | invalidValue
  /-- A number that is none. -/
  | unreadableValue
  /-- A value for a flag that takes none. -/
  | unneededValue
  /-- Something given twice that can be given once. -/
  | conflict
  | missingArgument
  | help
  | version
  deriving DecidableEq, Repr

/-- What a value has to be. -/
inductive ValueKind where
  | text
  /-- A text that is not empty. -/
  | path
  /-- A whole number of 64 bits. -/
  | number
  | oneOf (words : List String)
  deriving DecidableEq, Repr

/-- The number that a word stands for: digits, with or without a plus sign, and less than 2^64. -/
def numberOf? (word : String) : Option Nat :=
  let digits := match word.toList with
    | '+' :: rest => rest
    | cs => cs
  if digits.isEmpty || !digits.all Char.isDigit then none
  else
    let n := digits.foldl (fun n c => 10 * n + (c.toNat - 48)) 0
    if n < UInt64.size then some n else none

/-- Checks a value. -/
def ValueKind.check (word : String) : ValueKind → Except UsageError Unit
  | .text => .ok ()
  | .path => if word = "" then .error .invalidValue else .ok ()
  | .number => if (numberOf? word).isSome then .ok () else .error .unreadableValue
  | .oneOf words => if words.contains word then .ok () else .error .invalidValue

/-- What a flag does. -/
inductive Action where
  /-- Takes a value. -/
  | set (kind : ValueKind)
  /-- Takes values, with commas between them, and can be given again. -/
  | append
  | switch
  | help
  | version
  deriving DecidableEq, Repr

/-- A flag, with a name and perhaps a letter. -/
structure Flag where
  name : String
  letter : Option Char
  action : Action
  deriving DecidableEq, Repr

/-- Whether a flag takes a value. -/
def Flag.takesValue (f : Flag) : Bool :=
  match f.action with
  | .set _ | .append => true
  | _ => false

/-- A word without a flag. -/
structure Positional where
  name : String
  kind : ValueKind
  deriving DecidableEq, Repr

/-- What a command line can hold. -/
structure Grammar where
  flags : List Flag
  positionals : List Positional := []
  /-- The names of what has to be given. -/
  required : List String := []
  /-- Pairs of names: if the first is given, the second has to be. -/
  requires : List (String × String) := []
  /-- The words that end this command line and start that of a command. -/
  commands : List String := []
  deriving Repr

/-- What is given: values by name. A switch that is given has no values. -/
abbrev Given := List (String × List String)

namespace Given

/-- Whether something is given. -/
def has (given : Given) (name : String) : Bool := (given.lookup name).isSome

/-- The values of a flag that can be given again. -/
def values (given : Given) (name : String) : List String := (given.lookup name).getD []

/-- The value of a flag or a positional. -/
def value? (given : Given) (name : String) : Option String := (given.values name).head?

/-- The number that is the value of a flag. -/
def number? (given : Given) (name : String) : Option Nat := (given.value? name).bind numberOf?

/-- Adds values to those that are given under a name. -/
def add (given : Given) (name : String) (values : List String) : Given :=
  (name, given.values name ++ values) :: given.filter (·.1 != name)

end Given

/-- Checks that everything is given that has to be. -/
def Grammar.validate (g : Grammar) (given : Given) : Except UsageError Unit :=
  if g.required.all given.has && g.requires.all fun r => !given.has r.1 || given.has r.2 then .ok ()
  else .error .missingArgument

end ArchFacts.CommandLine
