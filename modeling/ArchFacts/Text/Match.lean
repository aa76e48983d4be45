/-!
# Finding a text in a text

Prefix and substring tests on strings. Both are stated on the characters, where they are the
standard relations `<+:` and `<:+:`.
-/

namespace ArchFacts.Text

/-- Whether `whole` begins with `start`. -/
def startsWith (whole start : String) : Bool :=
  start.toList.isPrefixOf whole.toList

/-- Whether `needle` stands somewhere in a list as a run of adjacent characters. -/
def occursIn (needle : List Char) : List Char → Bool
  | [] => needle.isEmpty
  | c :: rest => needle.isPrefixOf (c :: rest) || occursIn needle rest

/-- Whether `needle` occurs in `whole` as a run of adjacent characters. -/
def contains (whole needle : String) : Bool :=
  occursIn needle.toList whole.toList

theorem startsWith_iff {whole start : String} :
    startsWith whole start = true ↔ start.toList <+: whole.toList := by
  simp [startsWith]

theorem occursIn_iff {needle cs : List Char} : occursIn needle cs = true ↔ needle <:+: cs := by
  induction cs with
  | nil => simp [occursIn]
  | cons c rest ih => simp [occursIn, ih, List.infix_cons_iff]

theorem contains_iff {whole needle : String} :
    contains whole needle = true ↔ needle.toList <:+: whole.toList :=
  occursIn_iff

end ArchFacts.Text
