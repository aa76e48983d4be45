import ArchFacts.CommandLine.Grammar

/-!
# Reading command lines

The words are read from left to right. `--flag` and `-f` are flags; their value is the next word, or
stands in the same one (`--flag=v`, `-f=v`, `-fv`), and a word that starts with a dash is no value
unless it is a dash alone. After `--` no word is a flag.

A value is looked at when the next flag or the next word without one comes, or at the end. So an
unknown flag is reported before a fault in the value in front of it.
-/

namespace ArchFacts.CommandLine

/-- What the last words belong to. -/
inductive Slot where
  | flag (f : Flag)
  | positional (p : Positional)
  deriving DecidableEq, Repr

/-- A command line that has been read up to some word. -/
structure Scan where
  given : Given
  /-- What was read last and not yet looked at, with its value if there is one. -/
  pending : Option (Slot × Option String)
  /-- How many words without a flag there were. -/
  taken : Nat
  /-- Whether no further word is a flag. -/
  literal : Bool
  deriving DecidableEq, Repr

namespace Scan

/-- Before the first word. -/
def start : Scan := ⟨[], none, 0, false⟩

/-- Whether a flag waits for its value, and the next word can be it. -/
def awaitsValue (s : Scan) : Bool :=
  match s.pending with
  | some (.flag _, none) => !s.literal
  | _ => false

/-- Takes a value that can be given once. -/
def setOnce (given : Given) (name : String) (kind : ValueKind) (value : String) :
    Except UsageError Given := do
  if given.has name then .error .conflict
  kind.check value
  return given.add name [value]

/-- The pieces of a text between commas. -/
def splitCommas (text : String) : List String := (Text.pieces ',' text.toList).map String.ofList

/-- Looks at what is pending. -/
def settle (s : Scan) : Except UsageError Scan := do
  let given ← match s.pending with
    | none => .ok s.given
    | some (_, none) => .error .invalidValue
    | some (.positional p, some value) => setOnce s.given p.name p.kind value
    | some (.flag f, some value) => match f.action with
      | .set kind => setOnce s.given f.name kind value
      | .append => .ok (s.given.add f.name (splitCommas value))
      | _ => .error .unneededValue
  return { s with given, pending := none }

/-- Reads a flag with the value that is attached to it, if there is one. -/
def readFlag (s : Scan) (f : Flag) (attached : Option String) : Except UsageError Scan := do
  if f.takesValue then
    let s ← s.settle
    let s := { s with pending := some (.flag f, attached) }
    if attached.isSome then s.settle else return s
  else if attached.isSome then .error .unneededValue
  else
    let s ← s.settle
    match f.action with
    | .help => .error .help
    | .version => .error .version
    | _ =>
      if s.given.has f.name then .error .conflict
      else return { s with given := s.given.add f.name [] }

/-- Reads a flag that is given by its name, with what follows an equals sign. -/
def readLong (g : Grammar) (s : Scan) (word : List Char) : Except UsageError Scan :=
  let name := String.ofList (word.takeWhile (· != '='))
  let attached := match word.dropWhile (· != '=') with
    | [] => none
    | _ :: value => some (String.ofList value)
  match g.flags.find? (·.name == name) with
  | some f => s.readFlag f attached
  | none => .error .unknownArgument

/-- Reads flags that are given by their letters. What follows the letter of a flag that takes a
value is the value. -/
def readShort (g : Grammar) (s : Scan) : List Char → Except UsageError Scan
  | [] => .ok s
  | c :: rest =>
    match g.flags.find? (·.letter == some c) with
    | none => .error .unknownArgument
    | some f =>
      if f.takesValue then
        s.readFlag f <| match rest with
          | [] => none
          | '=' :: value => some (String.ofList value)
          | value => some (String.ofList value)
      else do
        let s ← s.readFlag f none
        readShort g s rest

/-- Reads a word that belongs to no flag. -/
def readPositional (g : Grammar) (s : Scan) (word : String) : Except UsageError Scan :=
  match g.positionals[s.taken]? with
  | some p => do
    let s ← s.settle
    return { s with pending := some (.positional p, some word), taken := s.taken + 1 }
  | none =>
    if g.commands.isEmpty || (s.literal && g.commands.contains word) then .error .unknownArgument
    else .error .unknownCommand

/-- Reads a word. -/
def readWord (g : Grammar) (s : Scan) (word : String) : Except UsageError Scan :=
  if s.literal then s.readPositional g word
  else match word.toList with
    | ['-', '-'] => .ok { s with literal := true }
    | '-' :: '-' :: flag => s.readLong g flag
    | '-' :: c :: letters => s.readShort g (c :: letters)
    | _ => match s.pending with
      | some (.flag f, none) => .ok { s with pending := some (.flag f, some word) }
      | _ => s.readPositional g word

/-- Reads words, up to the first that starts a command: gives that one and those after it too. -/
def readWords (g : Grammar) (s : Scan) : List String → Except UsageError (Scan × List String)
  | [] => .ok (s, [])
  | word :: rest =>
    if g.commands.contains word && !s.literal && !s.awaitsValue then .ok (s, word :: rest)
    else do
      let s ← s.readWord g word
      readWords g s rest

end Scan

end ArchFacts.CommandLine
