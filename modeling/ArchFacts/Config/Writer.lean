import ArchFacts.Config.Basic
import ArchFacts.Yaml.Writer

/-!
# Writing configurations

A configuration is written with all of its keys, one a line.
-/

namespace ArchFacts

/-- A key with a number, indented. -/
def writeCeiling (indent : Nat) (key : String) (n : UInt64) : List Char :=
  List.replicate indent ' ' ++ key.toList ++ [':', ' '] ++ Nat.toDigits 10 n.toNat ++ ['\n']

/-- A key that holds further ones, indented. -/
def writeKey (indent : Nat) (key : String) : List Char :=
  List.replicate indent ' ' ++ key.toList ++ [':', '\n']

/-- The ceilings of a search under their key. -/
def Ceilings.write (key : String) (c : Ceilings) : List Char :=
  writeKey 2 key ++ writeCeiling 4 "max_depth" c.maxDepth ++ writeCeiling 4 "max_nodes" c.maxNodes

/-- The limits under their key. -/
def Limits.write (l : Limits) : List Char :=
  writeKey 0 "limits" ++ l.traverse.write "traverse" ++ l.path.write "path"
    ++ l.impact.write "impact"

/-- The text of a configuration. -/
def Config.write (c : Config) : List Char :=
  Yaml.writeEntry "data_file" c.dataFile ++ c.limits.write

end ArchFacts
