/-!
# First appearances

The distinct members of a list in the order in which they first appear.
-/

namespace ArchFacts

variable {α : Type} [DecidableEq α]

/-- The members of a list that are not in `seen`, each at its first appearance only. -/
def firstSeenAfter (seen : List α) : List α → List α
  | [] => []
  | a :: rest =>
    if a ∈ seen then firstSeenAfter seen rest else a :: firstSeenAfter (a :: seen) rest

/-- The distinct members of a list, in the order in which they first appear. -/
def firstSeen (as : List α) : List α := firstSeenAfter [] as

theorem mem_firstSeenAfter {seen as : List α} {a : α} :
    a ∈ firstSeenAfter seen as ↔ a ∈ as ∧ a ∉ seen := by
  induction as generalizing seen with
  | nil => simp [firstSeenAfter]
  | cons b rest ih =>
    by_cases hb : b ∈ seen
    · rw [firstSeenAfter, if_pos hb, ih]
      constructor
      · rintro ⟨ha, hn⟩
        exact ⟨List.mem_cons_of_mem _ ha, hn⟩
      · rintro ⟨ha, hn⟩
        rcases List.mem_cons.mp ha with rfl | ha
        · exact absurd hb hn
        · exact ⟨ha, hn⟩
    · rw [firstSeenAfter, if_neg hb, List.mem_cons, ih]
      by_cases hab : a = b
      · simp [hab, hb]
      · simp [hab]

theorem nodup_firstSeenAfter (seen as : List α) : (firstSeenAfter seen as).Nodup := by
  induction as generalizing seen with
  | nil => exact List.nodup_nil
  | cons b rest ih =>
    by_cases hb : b ∈ seen
    · rw [firstSeenAfter, if_pos hb]
      exact ih seen
    · rw [firstSeenAfter, if_neg hb, List.nodup_cons]
      refine ⟨fun hmem => ?_, ih (b :: seen)⟩
      exact (mem_firstSeenAfter.mp hmem).2 List.mem_cons_self

/-- The members of two lists one after the other, each at its first appearance. -/
theorem firstSeenAfter_append (seen as bs : List α) :
    firstSeenAfter seen (as ++ bs) =
      firstSeenAfter seen as ++ firstSeenAfter ((firstSeenAfter seen as).reverse ++ seen) bs := by
  induction as generalizing seen with
  | nil => rfl
  | cons a rest ih =>
    rw [List.cons_append, firstSeenAfter, firstSeenAfter]
    by_cases ha : a ∈ seen
    · rw [if_pos ha, if_pos ha]
      exact ih seen
    · rw [if_neg ha, if_neg ha, ih, List.cons_append, List.reverse_cons, List.append_assoc]
      rfl

/-- One more member appears at the end, unless it appeared before. -/
theorem firstSeen_concat (as : List α) (a : α) :
    firstSeen (as ++ [a]) = if a ∈ as then firstSeen as else firstSeen as ++ [a] := by
  rw [firstSeen, firstSeenAfter_append, List.append_nil]
  have hseen : a ∈ (firstSeenAfter [] as).reverse ↔ a ∈ as := by
    rw [List.mem_reverse, mem_firstSeenAfter]
    exact and_iff_left List.not_mem_nil
  by_cases ha : a ∈ as
  · rw [if_pos ha, firstSeenAfter, if_pos (hseen.mpr ha)]
    exact List.append_nil _
  · rw [if_neg ha, firstSeenAfter, if_neg (mt hseen.mp ha)]
    rfl

/-- What the members of a list tell stands in the order in which it is told first: before a value is
told, none that comes after it was. -/
theorem pairwise_firstSeenAfter_filterMap {β : Type} (tell : β → Option α) (seen : List α)
    (bs : List β) :
    (firstSeenAfter seen (bs.filterMap tell)).Pairwise fun a a' =>
      ∃ earlier b later, bs = earlier ++ b :: later ∧ tell b = some a ∧
        ∀ x ∈ earlier, tell x ≠ some a' := by
  induction bs generalizing seen with
  | nil => exact .nil
  | cons b rest ih =>
    -- what holds of the rest holds of the whole, unless the first member tells the later value
    have hcons {a a' : α} (hb : tell b ≠ some a')
        (h : ∃ earlier x later, rest = earlier ++ x :: later ∧ tell x = some a ∧
          ∀ y ∈ earlier, tell y ≠ some a') :
        ∃ earlier x later, b :: rest = earlier ++ x :: later ∧ tell x = some a ∧
          ∀ y ∈ earlier, tell y ≠ some a' := by
      obtain ⟨earlier, x, later, rfl, hx, hearlier⟩ := h
      exact ⟨b :: earlier, x, later, rfl, hx, List.forall_mem_cons.mpr ⟨hb, hearlier⟩⟩
    cases hb : tell b with
    | none =>
      rw [List.filterMap_cons_none hb]
      refine (ih seen).imp fun {_ _} => hcons ?_
      rw [hb]
      exact nofun
    | some a =>
      rw [List.filterMap_cons_some hb, firstSeenAfter]
      by_cases ha : a ∈ seen
      · rw [if_pos ha]
        refine (ih seen).imp_of_mem fun {_ a'} _ ha' => hcons ?_
        rw [hb]
        rintro ⟨⟩
        exact (mem_firstSeenAfter.mp ha').2 ha
      · rw [if_neg ha, List.pairwise_cons]
        refine ⟨fun a' _ => ⟨[], b, rest, rfl, hb, fun _ hx => absurd hx List.not_mem_nil⟩, ?_⟩
        refine (ih (a :: seen)).imp_of_mem fun {_ a'} _ ha' => hcons ?_
        rw [hb]
        rintro ⟨⟩
        exact (mem_firstSeenAfter.mp ha').2 List.mem_cons_self

end ArchFacts
