/-!
# Separated texts

A text is cut at every separator, and the pieces put together again: `joined_pieces` says that
nothing is lost. There is always one piece more than there are separators.
-/

namespace ArchFacts.Text

/-- The pieces of a text between the separators, the empty ones included. -/
def pieces (separator : Char) : List Char → List (List Char)
  | [] => [[]]
  | c :: rest =>
    if c = separator then [] :: pieces separator rest
    else match pieces separator rest with
      | first :: others => (c :: first) :: others
      | [] => [[c]]

/-- Pieces with a separator between any two. -/
def joined (separator : Char) : List (List Char) → List Char
  | [] => []
  | [piece] => piece
  | piece :: rest => piece ++ separator :: joined separator rest

theorem pieces_ne_nil (separator : Char) (cs : List Char) : pieces separator cs ≠ [] := by
  cases cs with
  | nil => simp [pieces]
  | cons c rest =>
    rw [pieces]
    split
    · simp
    · split <;> simp

theorem joined_pieces (separator : Char) (cs : List Char) :
    joined separator (pieces separator cs) = cs := by
  induction cs with
  | nil => rfl
  | cons c rest ih =>
    rw [pieces]
    split
    · rename_i h
      obtain ⟨first, others, hp⟩ := List.exists_cons_of_ne_nil (pieces_ne_nil separator rest)
      rw [hp] at ih ⊢
      simp [joined, ih, h]
    · split
      · rename_i first others hp
        rw [hp] at ih
        cases others with
        | nil => simpa [joined] using ih
        | cons second others => simpa [joined] using ih
      · rename_i hp
        exact absurd hp (pieces_ne_nil separator rest)

end ArchFacts.Text
