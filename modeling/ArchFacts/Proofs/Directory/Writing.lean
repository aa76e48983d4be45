import ArchFacts.Proofs.Directory.Walking

/-!
# Writing, moving and removing files

What it takes for a file to be written, moved or removed, and the tree that this leaves. Of the
changes to a tree made one after the other only the last at a place counts.
-/

namespace ArchFacts.Directory.Tree

/-! ### One change after the other -/

variable {t : Tree} {first second : Place}

theorem erase_put (t : Tree) (place : Place) (entry : Entry) :
    (t.put place entry).erase place = t.erase place := by
  simp [put, erase]

/-- What was erased is still erased after something was put elsewhere. -/
theorem erase_put_erase (hne : first ≠ second) (t : Tree) (entry : Entry) :
    ((t.erase second).put first entry).erase second = (t.erase second).put first entry := by
  have hkeep : (first != second) = true := bne_iff_ne.mpr hne
  simp only [put, erase, List.filter_append, List.filter_filter, List.filter_singleton, hkeep,
    Tree.mk.injEq, true_and]
  refine congrArg (· ++ _) (List.filter_congr fun entry _ => ?_)
  rw [← Bool.and_assoc, Bool.and_comm (entry.1 != second), Bool.and_assoc, Bool.and_self]

/-- To put the same again changes nothing. -/
theorem put_put (t : Tree) (place : Place) (entry : Entry) :
    (t.put place entry).put place entry = t.put place entry := by
  rw [put, erase_put]
  rfl

/-! ### Writing and moving -/

variable {after : Tree} {path source target : String} {bytes : List UInt8}

theorem writeBytes_eq_ok_iff : t.writeBytes path bytes = .ok after ↔
    (Path.ofText path).slash = false ∧ ∃ place, t.locate path = .ok place ∧
      t.get? place ≠ some .directory ∧ after = t.put place (.file bytes) := by
  rw [writeBytes]
  cases (Path.ofText path).slash with
  | true =>
    constructor
    · intro h
      obtain ⟨⟨⟩, -, hrest⟩ := bind_eq_ok.mp h
      obtain ⟨_, -, hlast⟩ := bind_eq_ok.mp hrest
      cases hlast
    · nofun
  | false =>
    refine (bind_eq_ok.trans (exists_congr fun place => and_congr_right fun _ => ?_)).trans
      (and_iff_right rfl).symm
    constructor
    · intro h
      split at h
      case h_1 => cases h
      case h_2 hfree => exact ⟨hfree, (Except.ok.inj h).symm⟩
    · rintro ⟨hfree, rfl⟩
      split
      case h_1 hentry => exact absurd hentry hfree
      case h_2 => rfl

theorem moveFile_eq_ok_iff : t.moveFile source target = .ok after ↔
    ∃ bytes old new name, t.readBytes source = .ok bytes ∧ t.locate source = .ok old ∧
      t.locate target = .ok new ∧ (Path.ofText target).steps.getLast? = some (.enter name) ∧
      (Path.ofText target).slash = false ∧ t.get? new ≠ some .directory ∧
      after = (t.erase old).put new (.file bytes) := by
  rw [moveFile]
  constructor
  · intro h
    obtain ⟨bytes, hread, h⟩ := bind_eq_ok.mp h
    obtain ⟨old, hold, h⟩ := bind_eq_ok.mp h
    obtain ⟨new, hnew, h⟩ := bind_eq_ok.mp h
    dsimp only at h
    split at h
    case h_2 => cases h
    case h_1 name hlast =>
      split at h
      case isTrue => cases h
      case isFalse hslash =>
        split at h
        case isTrue => cases h
        case isFalse hfree =>
          exact ⟨bytes, old, new, name, hread, hold, hnew, hlast,
            eq_false_of_ne_true hslash, hfree, (Except.ok.inj h).symm⟩
  · rintro ⟨bytes, old, new, name, hread, hold, hnew, hlast, hslash, hfree, rfl⟩
    simp only [hread, hold, hnew, hlast, hslash]
    exact if_neg hfree

theorem removeFile_eq_ok_iff : t.removeFile path = .ok after ↔
    ∃ place bytes, t.locate path = .ok place ∧ t.get? place = some (.file bytes) ∧
      (Path.ofText path).slash = false ∧ after = t.erase place := by
  rw [removeFile]
  constructor
  · intro h
    obtain ⟨place, hplace, h⟩ := bind_eq_ok.mp h
    split at h
    case h_1 => cases h
    case h_2 => cases h
    case h_3 bytes hfile =>
      split at h
      case isTrue => cases h
      case isFalse hslash =>
        exact ⟨place, bytes, hplace, hfile, eq_false_of_ne_true hslash, (Except.ok.inj h).symm⟩
  · rintro ⟨place, bytes, hplace, hfile, hslash, rfl⟩
    refine bind_eq_ok.mpr ⟨place, hplace, ?_⟩
    rw [hfile, hslash]
    rfl

/-- What is removed is no directory. -/
theorem exists_of_removeFile (h : t.removeFile path = .ok after) :
    ∃ place, t.get? place ≠ some .directory ∧ after = t.erase place := by
  obtain ⟨place, bytes, -, hfile, -, rfl⟩ := removeFile_eq_ok_iff.mp h
  exact ⟨place, by rw [hfile]; nofun, rfl⟩

/-! ### Why it cannot be done -/

/-- A file is not written where its path leads nowhere or to a directory. -/
theorem of_writeBytes_eq_error {fault : Fault} (hslash : (Path.ofText path).slash = false)
    (h : t.writeBytes path bytes = .error fault) : t.locate path = .error fault ∨
      ∃ place, t.locate path = .ok place ∧ t.get? place = some .directory ∧ fault = .isDirectory := by
  rw [writeBytes] at h
  simp only [hslash] at h
  rcases bind_eq_error.mp h with hplace | ⟨place, hplace, hentry⟩
  · exact Or.inl hplace
  · split at hentry
    case h_1 hdirectory => exact Or.inr ⟨place, hplace, hdirectory, (Except.error.inj hentry).symm⟩
    case h_2 => cases hentry

/-- A file is not moved to a name where its path leads nowhere or to a directory. -/
theorem of_moveFile_eq_error {old : Place} {name : String} {fault : Fault}
    (hread : t.readBytes source = .ok bytes) (hold : t.locate source = .ok old)
    (htarget : Path.EndsIn target name) (h : t.moveFile source target = .error fault) :
    t.locate target = .error fault ∨
      ∃ new, t.locate target = .ok new ∧ t.get? new = some .directory ∧ fault = .isDirectory := by
  rw [moveFile] at h
  obtain ⟨_, -, h⟩ := (bind_eq_error.mp h).resolve_left (by rw [hread]; nofun)
  obtain ⟨_, -, h⟩ := (bind_eq_error.mp h).resolve_left (by rw [hold]; nofun)
  rcases bind_eq_error.mp h with hnew | ⟨new, hnew, hentry⟩
  · exact Or.inl hnew
  · simp only [htarget.getLast?_steps, htarget.slash_eq] at hentry
    split at hentry
    case isTrue hslash => cases hslash
    case isFalse =>
      split at hentry
      case isTrue hdirectory =>
        exact Or.inr ⟨new, hnew, hdirectory, (Except.error.inj hentry).symm⟩
      case isFalse => cases hentry

end ArchFacts.Directory.Tree
