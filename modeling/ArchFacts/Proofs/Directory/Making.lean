import ArchFacts.Proofs.Directory.Walking

/-!
# Making directories

Making directories makes nothing but directories, where nothing was before, on the way of the steps
(`Tree.grown_makeDirectories`); this is so even if it fails half-way. Where the directory is there
already, it changes nothing (`Tree.makeDirectories_of_walk`).
-/

namespace ArchFacts.Directory.Tree

variable {t before between after : Tree} {place directory : Place} {steps : List Step} {path : String}

/-! ### Trees with more directories -/

/-- A tree with more directories, on the way along some steps. -/
structure Grown (before after : Tree) (place : Place) (steps : List Step) : Prop where
  current : after.current = before.current
  view : ∀ p, after.get? p = before.get? p ∨
    before.get? p = none ∧ after.get? p = some .directory ∧
      ∃ front, front <+: steps ∧ p = leadsTo place front

namespace Grown

theorem refl (t : Tree) (place : Place) (steps : List Step) : t.Grown t place steps :=
  ⟨rfl, fun _ => Or.inl rfl⟩

theorem trans (h : before.Grown between place steps) (h' : between.Grown after place steps) :
    before.Grown after place steps where
  current := h'.current.trans h.current
  view p := by
    rcases h'.view p with hsame | ⟨hnone, hmade, hway⟩
    · rw [hsame]
      exact h.view p
    · rcases h.view p with hsame | ⟨hbefore, -, -⟩
      · exact Or.inr ⟨hsame ▸ hnone, hmade, hway⟩
      · exact Or.inr ⟨hbefore, hmade, hway⟩

theorem mono (h : before.Grown after place steps) {steps' : List Step} (hpart : steps <+: steps') :
    before.Grown after place steps' where
  current := h.current
  view p := by
    rcases h.view p with hsame | ⟨hnone, hmade, front, hfront, hp⟩
    · exact Or.inl hsame
    · exact Or.inr ⟨hnone, hmade, front, hfront.trans hpart, hp⟩

/-- Nothing that was there is changed. -/
theorem get?_eq (h : before.Grown after place steps) {p : Place} (hp : before.get? p ≠ none) :
    after.get? p = before.get? p :=
  (h.view p).resolve_right fun hgrown => hp hgrown.1

theorem keeps (h : before.Grown after place steps) : before.Keeps after where
  current := h.current
  directory p hp := by rw [h.get?_eq (by rw [hp]; nofun), hp]

end Grown

/-! ### Making them -/

theorem makeDirectory_eq_ok_iff : t.makeDirectory place steps = .ok after ↔
    ∃ new, t.follow place steps = .ok new ∧ t.get? new = none ∧ after = t.put new .directory := by
  refine bind_eq_ok.trans (exists_congr fun new => and_congr_right fun _ => ?_)
  constructor
  · intro h
    split at h
    case h_1 => cases h
    case h_2 hnone => exact ⟨hnone, (Except.ok.inj h).symm⟩
  · rintro ⟨hnone, rfl⟩
    rw [hnone]

theorem grown_makeDirectory (h : t.makeDirectory place steps = .ok after) :
    t.Grown after place steps := by
  obtain ⟨new, hfollow, hnone, rfl⟩ := makeDirectory_eq_ok_iff.mp h
  refine ⟨rfl, fun p => ?_⟩
  have hroot : new ≠ [] := by
    rintro rfl
    cases hnone
  rw [get?_put t new p _ hroot]
  split
  case isTrue heq =>
    subst heq
    exact Or.inr ⟨hnone, rfl, steps, List.prefix_rfl, leadsTo_of_follow hfollow⟩
  case isFalse => exact Or.inl rfl

theorem grown_makeDirectoriesUp (t : Tree) (place : Place) (up : List Step) :
    t.Grown (t.makeDirectoriesUp place up).2 place up.reverse := by
  induction up generalizing t with
  | nil => exact .refl t place []
  | cons step above ih =>
    have habove : t.Grown (t.makeDirectoriesUp place above).2 place (step :: above).reverse :=
      (ih t).mono (by rw [List.reverse_cons]; exact List.prefix_append _ _)
    rw [makeDirectoriesUp]
    split
    case h_1 made hmade => exact grown_makeDirectory hmade
    case h_3 => exact .refl t place _
    case h_2 =>
      split
      case h_1 grown hgrown => rwa [hgrown] at habove
      case h_2 grown hgrown =>
        rw [hgrown] at habove
        split
        case h_1 made hmade => exact habove.trans (grown_makeDirectory hmade)
        case h_2 => exact habove

/-- **Making directories** makes no more than directories on the way of a path. -/
theorem grown_makeDirectories (t : Tree) (path : String) :
    t.Grown (t.makeDirectories path).2 (t.start (.ofText path)) (Path.ofText path).steps := by
  unfold makeDirectories
  split
  · exact .refl ..
  · split
    · exact .refl ..
    · simpa only [List.reverse_reverse] using
        t.grown_makeDirectoriesUp (t.start (.ofText path)) (Path.ofText path).steps.reverse

/-! ### Directories that are there -/

theorem makeDirectoriesUp_of_walk {up : List Step} (hwalk : t.walk place up.reverse = .ok directory)
    (hthere : t.get? directory = some .directory) : t.makeDirectoriesUp place up = (.ok (), t) := by
  cases up with
  | nil => rfl
  | cons step above =>
    have hmake : t.makeDirectory place (step :: above).reverse = .error .exists :=
      bind_eq_error.mpr (Or.inr ⟨directory, follow_of_walk hwalk, by rw [hthere]⟩)
    have hhas : t.hasDirectory place (step :: above).reverse = true := by
      rw [hasDirectory, hwalk]
    rw [makeDirectoriesUp, hmake]
    exact congrArg (Prod.mk · t) (if_pos hhas)

/-- Where a directory is there already, none is made. -/
theorem makeDirectories_of_walk
    (hwalk : t.walk (t.start (.ofText path)) (Path.ofText path).steps = .ok directory)
    (hthere : t.get? directory = some .directory) :
    t.makeDirectories path = (if path = "" then .ok () else checkPath path, t) := by
  unfold makeDirectories
  split
  · rfl
  · split
    case h_1 hcheck => rw [hcheck]
    case h_2 hcheck =>
      rw [hcheck, makeDirectoriesUp_of_walk ((List.reverse_reverse _).symm ▸ hwalk) hthere]

/-- Nor is one made later. -/
theorem makeDirectories_of_keeps (h : before.Keeps after)
    (hwalk : before.walk (before.start (.ofText path)) (Path.ofText path).steps = .ok directory)
    (hthere : before.get? directory = some .directory) :
    after.makeDirectories path = ((before.makeDirectories path).1, after) := by
  have hafter := h.walk hwalk
  rw [← h.start] at hafter
  rw [makeDirectories_of_walk hwalk hthere,
    makeDirectories_of_walk hafter (h.directory directory hthere)]

end ArchFacts.Directory.Tree
