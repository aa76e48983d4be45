/-!
# Text as bytes

Files and streams hold bytes, everything else works on characters. `encode` writes a text in UTF-8
and `decode` reads it back; a byte sequence that is not well formed UTF-8 (a stray or missing
continuation byte, an overlong form, a surrogate, a value above U+10FFFF) has no text.
-/

namespace ArchFacts.Text.Utf8

/-- The bytes of a text. -/
def encode (cs : List Char) : List UInt8 :=
  cs.flatMap String.utf8EncodeChar

/-- The low six bits of a continuation byte, or nothing if the byte is none. -/
def continuation? (b : UInt8) : Option Nat :=
  if 0x80 ≤ b.toNat ∧ b.toNat < 0xC0 then some (b.toNat - 0x80) else none

/-- The character with the code point `code`, unless the point is none of a character or lies below
`least`, the first one that needs this many bytes. -/
def scalar? (least code : Nat) : Option Char :=
  if h : least ≤ code ∧ code.isValidChar then some (Char.ofNatAux code h.2) else none

/-- The text that some bytes are the UTF-8 form of. -/
def decode : List UInt8 → Option (List Char)
  | [] => some []
  | a :: rest =>
    if a.toNat < 0x80 then
      (decode rest).map (Char.ofNat a.toNat :: ·)
    else match a.toNat / 16, rest with
      | 0xC, b :: rest | 0xD, b :: rest => do
        let x ← continuation? b
        let c ← scalar? 0x80 ((a.toNat - 0xC0) * 64 + x)
        (decode rest).map (c :: ·)
      | 0xE, b :: b₂ :: rest => do
        let x ← continuation? b
        let y ← continuation? b₂
        let c ← scalar? 0x800 (((a.toNat - 0xE0) * 64 + x) * 64 + y)
        (decode rest).map (c :: ·)
      | 0xF, b :: b₂ :: b₃ :: rest => do
        let x ← continuation? b
        let y ← continuation? b₂
        let z ← continuation? b₃
        let c ← scalar? 0x10000 ((((a.toNat - 0xF0) * 64 + x) * 64 + y) * 64 + z)
        (decode rest).map (c :: ·)
      | _, _ => none

end ArchFacts.Text.Utf8
