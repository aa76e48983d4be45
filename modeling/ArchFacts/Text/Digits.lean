/-!
# Numbers in texts

A number stands in a text as its decimal digits, without leading zeros.
-/

namespace ArchFacts.Text

/-- The decimal digits of a number. -/
def digits (n : Nat) : String := String.ofList (Nat.toDigits 10 n)

end ArchFacts.Text
