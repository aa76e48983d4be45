import ArchFacts.Config.Basic
import ArchFacts.Yaml.Document
import ArchFacts.Yaml.Meaning

/-!
# Reading configurations

A configuration is a YAML mapping. Keys that are not known are passed over, known ones stand at most
once. What is left out of the whole is as in the standard configuration; what is left out inside the
limits is 0.
-/

namespace ArchFacts

open Yaml

/-- What a known key does to a record. -/
structure Setting (α : Type) where
  key : String
  apply : Node → α → Option α

namespace Setting

variable {α β : Type}

/-- A key that sets something in the record to what `decode` gives. -/
def of (key : String) (decode : Node → Option β) (set : β → α → α) : Setting α :=
  ⟨key, fun node record => (decode node).map (set · record)⟩

/-- The text of a scalar, however it is written. -/
def textOf? (document node : Node) : Option String :=
  match node.resolve document with
  | .scalar _ _ text => some text
  | _ => none

/-- Decodes the entries of a mapping in a document into a record; `seen` holds the known keys so
far. Every key is a text. -/
def decodeEntries (document : Node) (settings : List (Setting α)) (seen : List String)
    (record : α) : List (Node × Node) → Option α
  | [] => some record
  | (key, node) :: rest => do
    let key ← textOf? document key
    match settings.find? (·.key == key) with
    | none => decodeEntries document settings seen record rest
    | some setting =>
      if seen.contains key then none
      else do
        let record ← setting.apply node record
        decodeEntries document settings (key :: seen) record rest

/-- Decodes a mapping in a document into a record. A mapping that is left out has no entries. -/
def decode (document : Node) (settings : List (Setting α)) (record : α) (node : Node) :
    Option α :=
  match node.resolve document with
  | .mapping _ entries => decodeEntries document settings [] record entries
  | .scalar _ .plain "" => some record
  | _ => none

end Setting

namespace Ceilings

/-- The tag of an integer, with which a literal block may hold one. -/
def integerTag : Tag := "tag:yaml.org,2002:int".toList.map fun c => .ofNat c.toNat

/-- Whether a scalar may be read as a number. -/
def mayBeNumber (properties : Properties) : Style → Bool
  | .plain => true
  | .literal => properties.tag == some integerTag
  | _ => false

/-- Decodes a ceiling: a whole number of 64 bits. -/
def decodeOne (document node : Node) : Option UInt64 :=
  match node.resolve document with
  | .scalar properties style text =>
    if mayBeNumber properties style then
      (natural? text.toList).bind fun n => if n < UInt64.size then some (.ofNat n) else none
    else none
  | _ => none

/-- The keys of the ceilings of a search. -/
def settings (document : Node) : List (Setting Ceilings) :=
  [.of "max_depth" (decodeOne document) fun maxDepth c => { c with maxDepth },
   .of "max_nodes" (decodeOne document) fun maxNodes c => { c with maxNodes }]

/-- Decodes the ceilings of a search. -/
def decode (document : Node) : Node → Option Ceilings :=
  Setting.decode document (settings document) {}

end Ceilings

namespace Limits

/-- The keys of the limits. -/
def settings (document : Node) : List (Setting Limits) :=
  [.of "traverse" (Ceilings.decode document) fun traverse l => { l with traverse },
   .of "path" (Ceilings.decode document) fun path l => { l with path },
   .of "impact" (Ceilings.decode document) fun impact l => { l with impact }]

/-- Decodes the limits. -/
def decode (document : Node) : Node → Option Limits :=
  Setting.decode document (settings document) {}

end Limits

namespace Config

/-- The keys of a configuration. -/
def settings (document : Node) : List (Setting Config) :=
  [.of "data_file" (Setting.textOf? document) fun dataFile c => { c with dataFile },
   .of "limits" (Limits.decode document) fun limits c => { c with limits }]

/-- Decodes a document. -/
def decode (document : Node) : Option Config :=
  Setting.decode document (settings document) standard document

/-- The configuration that a text holds. -/
def read (text : List Char) : Option Config := (Node.ofText? text).bind decode

end Config

end ArchFacts
