import ArchFacts.Proofs.Directory.Making
import ArchFacts.Proofs.Directory.Writing

/-!
# Trees with nothing outside their directories

Everything in a tree stands in a directory of the tree, and the current directory is one of them
(`Tree.Rooted`). No change takes a directory away, and nothing is made where there is none, so this
stays so whatever is done.
-/

namespace ArchFacts.Directory.Tree

variable {t after : Tree} {place directory new : Place} {steps : List Step} {path : String}
  {bytes : List UInt8}

/-- What is in a tree is in one of its directories, and the current directory is one of them. -/
structure Rooted (t : Tree) : Prop where
  current : t.get? t.current = some .directory
  above : ∀ place, t.get? place ≠ none → t.get? place.dropLast = some .directory

namespace Rooted

/-- Nothing but files and directories in the root, which is the current directory. -/
theorem of_flat (hcurrent : t.current = []) (hflat : ∀ entry ∈ t.entries, entry.1.length ≤ 1) :
    t.Rooted where
  current := by rw [hcurrent]; rfl
  above p hp := by
    have hlength : p.length ≤ 1 := by
      by_cases hroot : p = []
      · rw [hroot]
        exact Nat.zero_le _
      · rw [get?, if_neg hroot] at hp
        obtain ⟨entry, hentry⟩ := Option.ne_none_iff_exists'.mp hp
        obtain ⟨before, rest, hentries, -⟩ := List.lookup_eq_some_iff.mp hentry
        exact hflat (p, entry) (hentries ▸ List.mem_append_right _ List.mem_cons_self)
    have hdropLast : p.dropLast = [] := by
      rw [← List.length_eq_zero_iff, List.length_dropLast]
      omega
    rw [hdropLast]
    rfl

theorem start (h : t.Rooted) (path : Path) : t.get? (t.start path) = some .directory := by
  rw [Tree.start]
  split
  · rfl
  · exact h.current

theorem walk (h : t.Rooted) (hplace : t.get? place = some .directory)
    (hwalk : t.walk place steps = .ok directory) : t.get? directory = some .directory := by
  induction steps generalizing place with
  | nil => rwa [← Except.ok.inj hwalk]
  | cons step steps ih =>
    cases step with
    | stay => exact ih hplace hwalk
    | up => exact ih (h.above place (by rw [hplace]; nofun)) hwalk
    | enter name =>
      obtain ⟨-, hentry, hrest⟩ := walk_enter_eq_ok_iff.mp hwalk
      exact ih hentry hrest

/-- What steps lead to stands in a directory, or would. -/
theorem follow (h : t.Rooted) (hplace : t.get? place = some .directory)
    (hfollow : t.follow place steps = .ok new) : t.get? new.dropLast = some .directory := by
  rcases follow_cases steps with ⟨front, name, rfl⟩ | hwalk
  · obtain ⟨inner, hinner, hlast⟩ := bind_eq_ok.mp ((follow_concat ..).symm.trans hfollow)
    obtain ⟨-, -, hself⟩ := bind_eq_ok.mp hlast
    rw [← Except.ok.inj hself, List.dropLast_concat]
    exact h.walk hplace hinner
  · have hnew := h.walk hplace ((hwalk t place).symm.trans hfollow)
    exact h.above new (by rw [hnew]; nofun)

theorem locate (h : t.Rooted) (hpath : t.locate path = .ok place) :
    t.get? place.dropLast = some .directory := by
  obtain ⟨-, -, hfollow⟩ := bind_eq_ok.mp hpath
  exact h.follow (h.start _) hfollow

theorem directoryOf (h : t.Rooted) (hpath : t.directoryOf path = .ok directory) :
    t.get? directory = some .directory :=
  h.walk (h.start _) hpath

/-! ### What is done to a tree -/

/-- To put something into a directory, but for a file instead of a directory. -/
theorem put (h : t.Rooted) (hplace : place ≠ []) (habove : t.get? place.dropLast = some .directory)
    {entry : Entry} (hfree : t.get? place = some .directory → entry = .directory) :
    (t.put place entry).Rooted := by
  have hkeeps (p : Place) (hp : t.get? p = some .directory) :
      (t.put place entry).get? p = some .directory := by
    rw [get?_put t place p entry hplace]
    split
    case isTrue heq => rw [hfree (heq ▸ hp)]
    case isFalse => exact hp
  refine ⟨hkeeps _ h.current, fun p hp => hkeeps _ ?_⟩
  rw [get?_put t place p entry hplace] at hp
  split at hp
  case isTrue heq => rwa [heq]
  case isFalse => exact h.above p hp

theorem erase (h : t.Rooted) (hfile : t.get? place ≠ some .directory) : (t.erase place).Rooted := by
  have hplace : place ≠ [] := fun heq => hfile (if_pos heq)
  have hkeeps := (Keeps.erase hfile).directory
  refine ⟨hkeeps _ h.current, fun p hp => hkeeps _ ?_⟩
  rw [get?_erase t place p hplace] at hp
  split at hp
  case isTrue => exact absurd rfl hp
  case isFalse => exact h.above p hp

theorem makeDirectory (h : t.Rooted) (hplace : t.get? place = some .directory)
    (hmake : t.makeDirectory place steps = .ok after) : after.Rooted := by
  obtain ⟨new, hnew, hnone, rfl⟩ := makeDirectory_eq_ok_iff.mp hmake
  have hroot : new ≠ [] := by
    rintro rfl
    cases hnone
  exact h.put hroot (h.follow hplace hnew) fun _ => rfl

theorem makeDirectoriesUp (h : t.Rooted) (hplace : t.get? place = some .directory) (up : List Step) :
    (t.makeDirectoriesUp place up).2.Rooted := by
  induction up generalizing t with
  | nil => exact h
  | cons step above ih =>
    have habove := ih h hplace
    have hstill := (t.grown_makeDirectoriesUp place above).keeps.directory place hplace
    rw [Tree.makeDirectoriesUp]
    split
    case h_1 made hmade => exact h.makeDirectory hplace hmade
    case h_3 => exact h
    case h_2 =>
      split
      case h_1 grown hgrown => rwa [hgrown] at habove
      case h_2 grown hgrown =>
        rw [hgrown] at habove hstill
        split
        case h_1 made hmade => exact habove.makeDirectory hstill hmade
        case h_2 => exact habove

theorem makeDirectories (h : t.Rooted) (path : String) : (t.makeDirectories path).2.Rooted := by
  unfold Tree.makeDirectories
  split
  · exact h
  · split
    · exact h
    · exact h.makeDirectoriesUp (h.start _) _

theorem writeBytes (h : t.Rooted) (hwrite : t.writeBytes path bytes = .ok after) : after.Rooted := by
  obtain ⟨-, place, hplace, hfree, rfl⟩ := writeBytes_eq_ok_iff.mp hwrite
  exact h.put (fun heq => hfree (if_pos heq)) (h.locate hplace) fun hdirectory =>
    absurd hdirectory hfree

theorem removeFile (h : t.Rooted) (hremove : t.removeFile path = .ok after) : after.Rooted := by
  obtain ⟨place, hfile, rfl⟩ := exists_of_removeFile hremove
  exact h.erase hfile

theorem moveFile {source target : String} (h : t.Rooted)
    (hmove : t.moveFile source target = .ok after) : after.Rooted := by
  obtain ⟨bytes, old, new, name, hread, hold, hnew, -, -, hfree, rfl⟩ := moveFile_eq_ok_iff.mp hmove
  have hfile : t.get? old ≠ some .directory := by
    obtain ⟨place, hplace, hfile, -⟩ := readBytes_eq_ok_iff.mp hread
    rw [Except.ok.inj (hold.symm.trans hplace), hfile]
    nofun
  have hroot : old ≠ [] := fun heq => hfile (if_pos heq)
  refine (h.erase hfile).put (fun heq => hfree (if_pos heq)) ?_ fun hdirectory => ?_
  · exact (Keeps.erase hfile).directory _ (h.locate hnew)
  · rw [get?_erase t old new hroot] at hdirectory
    split at hdirectory
    case isTrue => cases hdirectory
    case isFalse => exact absurd hdirectory hfree

end Rooted

end ArchFacts.Directory.Tree
