import ArchFacts.SlashPath

/-!
# Slashes in paths

A text is cut at its slashes, into pieces that are found again once they are joined
(`pieces_joined`), or at the last one alone, which splits it in one way. A path stands *around*
another one if it is that path or all that stands before one of its slashes. Going up one segment at
a time comes past every path that stands around the first one, the longest first, and ends before
the empty one (`parentChars?_of_around`).
-/

namespace ArchFacts

namespace Text

theorem pieces_append (separator : Char) (cs ds : List Char) :
    pieces separator (cs ++ separator :: ds) = pieces separator cs ++ pieces separator ds := by
  induction cs with
  | nil => exact if_pos rfl
  | cons c cs ih =>
    by_cases hc : c = separator
    · rw [List.cons_append, pieces, pieces, if_pos hc, if_pos hc, ih]
      rfl
    · obtain ⟨first, others, hpieces⟩ := List.exists_cons_of_ne_nil (pieces_ne_nil separator cs)
      rw [hpieces, List.cons_append] at ih
      rw [List.cons_append, pieces, pieces, if_neg hc, if_neg hc, ih, hpieces]
      rfl

theorem pieces_of_notMem {separator : Char} {cs : List Char} (h : separator ∉ cs) :
    pieces separator cs = [cs] := by
  induction cs with
  | nil => rfl
  | cons c cs ih =>
    obtain ⟨hc, hcs⟩ := not_or.mp (mt List.mem_cons.mpr h)
    rw [pieces, if_neg (Ne.symm hc), ih hcs]

theorem notMem_of_mem_pieces {separator : Char} {cs piece : List Char}
    (h : piece ∈ pieces separator cs) : separator ∉ piece := by
  induction cs generalizing piece with
  | nil =>
    obtain rfl := List.mem_singleton.mp h
    exact List.not_mem_nil
  | cons c cs ih =>
    rw [pieces] at h
    by_cases hc : c = separator
    · rw [if_pos hc] at h
      rcases List.mem_cons.mp h with rfl | h
      · exact List.not_mem_nil
      · exact ih h
    · obtain ⟨first, others, hpieces⟩ := List.exists_cons_of_ne_nil (pieces_ne_nil separator cs)
      rw [if_neg hc, hpieces] at h
      rw [hpieces] at ih
      rcases List.mem_cons.mp h with rfl | h
      · exact List.not_mem_cons_of_ne_of_not_mem (Ne.symm hc) (ih (List.mem_cons_self ..))
      · exact ih (List.mem_cons_of_mem _ h)

/-- Pieces are found again between the separators, if there is none in them. -/
theorem pieces_joined {separator : Char} {texts : List (List Char)} (hne : texts ≠ [])
    (h : ∀ text ∈ texts, separator ∉ text) : pieces separator (joined separator texts) = texts := by
  induction texts with
  | nil => exact absurd rfl hne
  | cons text texts ih =>
    obtain ⟨htext, htexts⟩ := List.forall_mem_cons.mp h
    cases texts with
    | nil => exact pieces_of_notMem htext
    | cons second others =>
      have hrest := ih (List.cons_ne_nil second others) htexts
      rw [joined, pieces_append, pieces_of_notMem htext, hrest]
      · rfl
      · exact List.cons_ne_nil second others

end Text

namespace SlashPath

variable {cs before after : List Char}

theorem splitLast_of_notMem (h : '/' ∉ cs) : splitLast cs = none := by
  induction cs with
  | nil => rfl
  | cons c cs ih =>
    obtain ⟨hc, hcs⟩ := not_or.mp (mt List.mem_cons.mpr h)
    rw [splitLast, ih hcs]
    exact if_neg (Ne.symm hc)

theorem splitLast_append (h : '/' ∉ after) (before : List Char) :
    splitLast (before ++ '/' :: after) = some (before, after) := by
  induction before with
  | nil =>
    rw [List.nil_append, splitLast, splitLast_of_notMem h]
    exact if_pos rfl
  | cons c before ih => rw [List.cons_append, splitLast, ih]

/-- A text has no slash in it, or one that is the last. -/
theorem exists_lastSlash (cs : List Char) :
    '/' ∉ cs ∨ ∃ before after, cs = before ++ '/' :: after ∧ '/' ∉ after := by
  induction cs with
  | nil => exact Or.inl List.not_mem_nil
  | cons c cs ih =>
    rcases ih with hnone | ⟨before, after, rfl, hafter⟩
    · by_cases hc : c = '/'
      · exact Or.inr ⟨[], cs, by rw [hc]; rfl, hnone⟩
      · exact Or.inl (by simp [Ne.symm hc, hnone])
    · exact Or.inr ⟨c :: before, after, rfl, hafter⟩

/-- Trimming takes away the slashes at the end, all of them and nothing else. -/
theorem exists_trimSlashes (cs : List Char) :
    (trimSlashes cs).getLast? ≠ some '/' ∧
      ∃ count, cs = trimSlashes cs ++ List.replicate count '/' := by
  refine ⟨fun hlast => ?_, (cs.reverse.takeWhile (· == '/')).length, ?_⟩
  · rw [trimSlashes, List.getLast?_reverse] at hlast
    have hfirst := List.head?_dropWhile_not (· == '/') cs.reverse
    rw [hlast] at hfirst
    cases hfirst
  · have hslashes : List.replicate (cs.reverse.takeWhile (· == '/')).length '/' =
        (cs.reverse.takeWhile (· == '/')).reverse := by
      refine (List.eq_replicate_iff.mpr ⟨List.length_reverse, fun c hc => ?_⟩).symm
      exact beq_iff_eq.mp (List.all_eq_true.mp List.all_takeWhile c (List.mem_reverse.mp hc))
    rw [hslashes, trimSlashes, ← List.reverse_append, List.takeWhile_append_dropWhile,
      List.reverse_reverse]

/-! ### Paths around a path -/

/-- A path is another one or stands before one of its slashes. -/
def Around (outer path : List Char) : Prop := outer = path ∨ ∃ rest, path = outer ++ '/' :: rest

theorem around_iff {outer path : List Char} :
    Around outer path ↔ outer = path ∨ outer ++ ['/'] <+: path := by
  refine or_congr_right ⟨?_, ?_⟩
  · rintro ⟨rest, rfl⟩
    exact ⟨rest, by rw [List.append_assoc]; rfl⟩
  · rintro ⟨rest, rfl⟩
    exact ⟨rest, by rw [List.append_assoc]; rfl⟩

instance (outer path : List Char) : Decidable (Around outer path) :=
  decidable_of_iff _ around_iff.symm

namespace Around

variable {outer other path : List Char}

theorem refl (path : List Char) : Around path path := Or.inl rfl

theorem isPrefix (h : Around outer path) : outer <+: path := by
  rcases h with rfl | ⟨rest, rfl⟩
  · exact List.prefix_refl _
  · exact List.prefix_append _ _

/-- Of two paths around the same one the longer is the one with more segments. -/
theorem eq_of_length (h : Around outer path) (h' : Around other path)
    (hlength : outer.length = other.length) : outer = other :=
  (List.prefix_of_prefix_length_le h.isPrefix h'.isPrefix (Nat.le_of_eq hlength)).eq_of_length
    hlength

end Around

variable {outer path parent : List Char}

theorem parentChars?_append (hbefore : before ≠ []) (hafter : '/' ∉ after) :
    parentChars? (before ++ '/' :: after) = some before := by
  obtain ⟨c, cs, rfl⟩ := List.exists_cons_of_ne_nil hbefore
  rw [parentChars?, splitLast_append hafter]

theorem around_of_parentChars? (h : parentChars? path = some parent) : Around parent path := by
  rcases exists_lastSlash path with hnone | ⟨before, after, rfl, hafter⟩
  · rw [parentChars?, splitLast_of_notMem hnone] at h
    cases h
  · cases before with
    | nil =>
      rw [parentChars?, splitLast_append hafter] at h
      cases h
    | cons c cs =>
      rw [parentChars?_append (List.cons_ne_nil c cs) hafter] at h
      exact Or.inr ⟨after, by rw [Option.some.inj h]⟩

/-- What stands around the path one segment up stands around the path. -/
theorem Around.of_parentChars? (h : Around outer parent) (hparent : parentChars? path = some parent) :
    Around outer path := by
  rcases around_of_parentChars? hparent with rfl | ⟨after, rfl⟩
  · exact h
  · rcases h with rfl | ⟨rest, rfl⟩
    · exact Or.inr ⟨after, rfl⟩
    · exact Or.inr ⟨rest ++ '/' :: after, by simp⟩

/-- Going up one segment passes over none of the paths that stand around a path. -/
theorem parentChars?_of_around (h : Around outer path) (hne : outer ≠ path) (hnil : outer ≠ []) :
    ∃ parent, parentChars? path = some parent ∧ Around outer parent := by
  rcases h with rfl | ⟨rest, rfl⟩
  · exact absurd rfl hne
  · rcases exists_lastSlash rest with hnone | ⟨before, after, rfl, hafter⟩
    · exact ⟨outer, parentChars?_append hnil hnone, .refl outer⟩
    · -- the last slash stands farther on
      have hsplit : outer ++ '/' :: (before ++ '/' :: after) =
          (outer ++ '/' :: before) ++ '/' :: after := by simp
      refine ⟨outer ++ '/' :: before, ?_, Or.inr ⟨before, rfl⟩⟩
      rw [hsplit, parentChars?_append (by simp) hafter]

end SlashPath

end ArchFacts
