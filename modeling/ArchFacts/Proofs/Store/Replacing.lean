import ArchFacts.Proofs.Store.Saving

/-!
# Saving replaces a file or leaves it alone

A store is saved in a path whose last part is a name, whatever slashes and `.` parts stand behind
it. Either the file then holds the store (`Store.Replaced`), or there is a reason why it cannot
(`Store.Prevents`) and the tree is as before, but for a file under the staging name, which is gone
(`Store.Restored`). A directory under the staging name stays in any case.

The staging path depends on the trimmed path alone (`Path.staging_trim`), so where it leads is known
also if the path itself leads nowhere.
-/

namespace ArchFacts

open Directory

namespace Directory

variable {t : Tree} {path name : String} {place directory : Place} {fault : Fault}

/-! ### Where the path and its staging path lead -/

/-- A name is short enough if it is with something behind it. -/
theorem checkName_of_append {ending : String} (h : checkName (name ++ ending) = .ok ()) :
    checkName name = .ok () := by
  unfold checkName at h ⊢
  split at h
  case isTrue => cases h
  case isFalse hshort =>
    rw [String.utf8ByteSize_append] at hshort
    exact if_neg (by omega)

namespace Tree

theorem directoryOf_trim (h : Path.fileName? path = some name) :
    t.directoryOf (String.ofList (Path.trim path.toList)) = t.directoryOf path := by
  rw [directoryOf, directoryOf, (Path.staging_trim h).2]

/-- The staging path leads to a place in the directory of the path. -/
theorem locate_staging_of_fileName (h : Path.fileName? path = some name) :
    t.locate (Path.staging path) = (do
      checkPath (Path.staging path)
      let directory ← t.directoryOf path
      checkName (name ++ ".tmp")
      return directory ++ [name ++ ".tmp"]) := by
  have hlocate := locate_staging (t := t) (Path.endsIn_trim h)
  rwa [(Path.staging_trim h).1, directoryOf_trim h] at hlocate

theorem namedIn_eq_error {found : Except Fault Place} (h : (do
      checkPath path
      let directory ← found
      checkName name
      return directory ++ [name]) = .error fault) :
    checkPath path = .error fault ∨ found = .error fault ∨ checkName name = .error fault := by
  rcases bind_eq_error.mp h with hpath | ⟨-, -, h⟩
  · exact Or.inl hpath
  · rcases bind_eq_error.mp h with hfound | ⟨_, -, h⟩
    · exact Or.inr (Or.inl hfound)
    · rcases bind_eq_error.mp h with hname | ⟨-, -, h⟩
      · exact Or.inr (Or.inr hname)
      · cases h

/-- A path that leads to a file has nothing behind its name. -/
theorem endsIn_of_file {bytes : List UInt8} (h : Path.fileName? path = some name)
    (hplace : t.locate path = .ok place) (hfile : t.get? place = some (.file bytes))
    (hslash : (Path.ofText path).slash = false) : Path.EndsIn path name := by
  have hends := Path.endsIn_trim h
  obtain ⟨stays, hstays⟩ := Path.stepsOf_trim path.toList
  obtain ⟨n, hname⟩ := hends.steps_eq
  rw [Path.steps_ofText, String.toList_ofList] at hname
  rw [hname] at hstays
  cases stays with
  | zero =>
    refine .of_steps ?_ hslash
    rw [Path.steps_ofText, hstays, List.replicate_zero, List.append_nil, List.getLast?_concat]
  | succ stays =>
    -- the last step stays, so what the name leads to is entered
    obtain ⟨⟨⟩, -, hfollow⟩ := bind_eq_ok.mp hplace
    rw [Path.steps_ofText, hstays, List.replicate_succ', ← List.append_assoc, follow,
      List.getLast?_concat] at hfollow
    simp only [List.append_assoc, ← List.replicate_succ'] at hfollow
    obtain ⟨above, -, hrest⟩ := bind_eq_ok.mp ((walk_append ..).symm.trans hfollow)
    obtain ⟨inner, -, hrest⟩ := bind_eq_ok.mp ((walk_append ..).symm.trans hrest)
    obtain ⟨-, hentry, hrest⟩ := walk_enter_eq_ok_iff.mp hrest
    obtain rfl := Except.ok.inj ((walk_stays ..).symm.trans hrest)
    cases hentry.symm.trans hfile

end Tree

end Directory

namespace Store

variable {t after : Tree} {path name : String} {place : Place} {fault : Fault} {s : Store}

/-- The file holds the lines of the store, and nothing else has changed but that nothing stands
under the staging name any more. -/
structure Replaced (s : Store) (before after : Tree) (path : String) : Prop where
  current : after.current = before.current
  contents : after.readBytes path =
    .ok (Text.Utf8.encode (s.facts.flatMap fun f => f.write ++ ['\n']))
  staging : after.exists? (Path.staging path) = .ok false
  others : ∃ target staging, after.locate path = .ok target ∧
    after.locate (Path.staging path) = .ok staging ∧
    ∀ p, p ≠ target → p ≠ staging → after.get? p = before.get? p

/-- Nothing has changed but that no file stands under the staging name any more. -/
structure Restored (before after : Tree) (path : String) : Prop where
  current : after.current = before.current
  others : ∀ p, before.locate (Path.staging path) ≠ .ok p → after.get? p = before.get? p
  staging : ∀ p, before.locate (Path.staging path) = .ok p →
    after.get? p = if before.get? p = some .directory then some .directory else none
  /-- What the file held before can still be read. -/
  target : ∀ bytes, before.readBytes path = .ok bytes → after.readBytes path = .ok bytes

/-- Why a store cannot be saved in a path that ends in a name. -/
inductive Prevents (t : Tree) (path name : String) : Fault → Prop where
  /-- The directory of the path is missing or is none. -/
  | parent {fault : Fault} (h : t.directoryOf path = .error fault) : Prevents t path name fault
  | staging {place : Place} (hplace : t.locate (Path.staging path) = .ok place)
      (hdirectory : t.get? place = some .directory) : Prevents t path name .isDirectory
  | target {place : Place} (hplace : t.locate path = .ok place)
      (hdirectory : t.get? place = some .directory) : Prevents t path name .isDirectory
  /-- The path, its staging path or the staging name is longer than it may be, or has a null
  character in it. -/
  | text {fault : Fault} (h : checkPath path = .error fault ∨
      checkPath (Path.staging path) = .error fault ∨ checkName (name ++ ".tmp") = .error fault) :
      Prevents t path name fault
  /-- Slashes or `.` parts behind the name say that the path is that of a directory. -/
  | ending (h : ¬Path.EndsIn path name) (fault : Fault) : Prevents t path name fault

/-! ### Saving that fails -/

/-- A tree in which no file stands under the staging name is left as it is. -/
theorem Restored.of_unchanged
    (h : ∀ p, t.locate (Path.staging path) = .ok p → t.get? p = some .directory) :
    Restored t t path where
  current := rfl
  others _ _ := rfl
  staging p hp := by rw [if_pos (h p hp), h p hp]
  target _ hread := hread

/-- What stands under the staging name is not what is read. -/
theorem Restored.of_erase (h : Path.fileName? path = some name)
    (hplace : t.locate (Path.staging path) = .ok place) (hfree : t.get? place ≠ some .directory) :
    Restored t (t.erase place) path where
  current := rfl
  others p hp := by
    have hne : p ≠ place := fun heq => hp (heq ▸ hplace)
    rw [Tree.get?_erase _ _ _ fun hroot => hfree (if_pos hroot), if_neg hne]
  staging p hp := by
    obtain rfl := Except.ok.inj (hplace.symm.trans hp)
    rw [Tree.get?_erase _ _ _ fun hroot => hfree (if_pos hroot), if_pos rfl, if_neg hfree]
  target bytes hread := by
    obtain ⟨target, htarget, hfile, hslash⟩ := Tree.readBytes_eq_ok_iff.mp hread
    have hends := Tree.endsIn_of_file h htarget hfile hslash
    obtain ⟨-, -, directory, hdirectory, rfl⟩ := (Tree.locate_eq_ok_iff hends).mp htarget
    obtain ⟨-, -, directory', hdirectory', rfl⟩ := (Tree.locate_staging_eq_ok_iff hends).mp hplace
    obtain rfl := Except.ok.inj (hdirectory.symm.trans hdirectory')
    refine Tree.readBytes_eq_ok_iff.mpr
      ⟨_, (Tree.Keeps.erase hfree).locate htarget, ?_, hslash⟩
    rw [Tree.get?_erase _ _ _ (List.concat_ne_nil _ _), if_neg (staged_ne directory name), hfile]

/-- A file that cannot be staged leaves nothing behind. -/
theorem restored_of_writeBytes (h : Path.fileName? path = some name)
    (hwrite : t.writeBytes (Path.staging path) s.contents = .error fault) :
    Prevents t path name fault ∧ Restored t (discard t (Path.staging path)) path := by
  have hends := Path.endsIn_trim h
  have hslash : (Path.ofText (Path.staging path)).slash = false := by
    rw [← (Path.staging_trim h).1]
    exact hends.endsIn_staging.slash_eq
  have hstaging := Tree.of_writeBytes_eq_error hslash hwrite
  constructor
  · rcases hstaging with hplace | ⟨place, hplace, hdirectory, rfl⟩
    · rw [Tree.locate_staging_of_fileName h] at hplace
      rcases Tree.namedIn_eq_error hplace with hpath | hparent | hname
      · exact .text (.inr (.inl hpath))
      · exact .parent hparent
      · exact .text (.inr (.inr hname))
    · exact .staging hplace hdirectory
  · have hdirectory (p) (hp : t.locate (Path.staging path) = .ok p) :
        t.get? p = some .directory := by
      rcases hstaging with hplace | ⟨place, hplace, hdirectory, -⟩
      · cases hplace.symm.trans hp
      · rwa [← Except.ok.inj (hplace.symm.trans hp)]
    have hkept : discard t (Path.staging path) = t := by
      unfold discard
      split
      case h_1 hremove =>
        obtain ⟨p, bytes, hp, hfile, -⟩ := Tree.removeFile_eq_ok_iff.mp hremove
        cases hfile.symm.trans (hdirectory p hp)
      case h_2 => rfl
    rw [hkept]
    exact .of_unchanged hdirectory

/-- A file that was staged and cannot be moved is removed. -/
theorem restored_of_moveFile (h : Path.fileName? path = some name)
    (hplace : t.locate (Path.staging path) = .ok place) (hfree : t.get? place ≠ some .directory)
    {bytes : List UInt8}
    (hmove : (t.put place (.file bytes)).moveFile (Path.staging path) path = .error fault) :
    Prevents t path name fault ∧
      Restored t (discard (t.put place (.file bytes)) (Path.staging path)) path := by
  have hslash : (Path.ofText (Path.staging path)).slash = false := by
    rw [← (Path.staging_trim h).1]
    exact (Path.endsIn_trim h).endsIn_staging.slash_eq
  have hread : (t.put place (.file bytes)).readBytes (Path.staging path) = .ok bytes :=
    (readBytes_staged hplace hfree hslash).2
  have hstaged := (Tree.Keeps.put hfree (.file bytes)).locate hplace
  constructor
  · by_cases hends : Path.EndsIn path name
    case neg => exact .ending hends fault
    case pos =>
      obtain ⟨-, hstagingName, directory, hdirectory, rfl⟩ :=
        (Tree.locate_staging_eq_ok_iff hends).mp hplace
      have hdirectory' := (Tree.Keeps.put hfree (.file bytes)).directoryOf hdirectory
      -- the staged file is neither on the way to the target nor the target
      have hlocate : (t.put (directory ++ [name ++ ".tmp"]) (.file bytes)).locate path =
          t.locate path := by
        rw [Tree.locate_eq hends, Tree.locate_eq hends, hdirectory, hdirectory']
      rcases Tree.of_moveFile_eq_error hread hstaged hends hmove with
        htarget | ⟨new, htarget, hentry, rfl⟩
      · rw [hlocate, Tree.locate_eq hends] at htarget
        rcases Tree.namedIn_eq_error htarget with hpath | hparent | hname
        · exact .text (.inl hpath)
        · cases hdirectory.symm.trans hparent
        · cases (checkName_of_append hstagingName).symm.trans hname
      · rw [hlocate] at htarget
        refine .target htarget ?_
        obtain ⟨-, -, directory'', hdirectory'', rfl⟩ := (Tree.locate_eq_ok_iff hends).mp htarget
        obtain rfl := Except.ok.inj (hdirectory.symm.trans hdirectory'')
        rwa [Tree.get?_put _ _ _ _ (List.concat_ne_nil _ _), if_neg (staged_ne directory name)]
          at hentry
  · have hroot : place ≠ [] := fun hroot => hfree (if_pos hroot)
    have hremove : (t.put place (.file bytes)).removeFile (Path.staging path) =
        .ok (t.erase place) := by
      refine Tree.removeFile_eq_ok_iff.mpr ⟨place, bytes, hstaged, ?_, hslash, ?_⟩
      · rw [Tree.get?_put _ _ _ _ hroot, if_pos rfl]
      · rw [Tree.erase_put]
    rw [discard, hremove]
    exact .of_erase h hplace hfree

/-! ### Saving that succeeds -/

/-- A store that is saved stands in the file and nowhere else. -/
theorem SavesAt.replaced {directory : Place} (h : SavesAt t path directory name) (s : Store) :
    Replaced s t (savedTree t directory name s.contents) path where
  current := rfl
  contents := h.readBytes s.contents
  staging := by
    refine Tree.exists?_of_get?_eq_none (h.again s.contents).staging ?_
    rw [get?_savedTree, if_neg (staged_ne directory name).symm, if_pos rfl]
  others := by
    refine ⟨_, _, (h.again s.contents).target, (h.again s.contents).staging, ?_⟩
    intro p htarget hstaging
    rw [get?_savedTree, if_neg htarget, if_neg hstaging]

/-- **Saving all or nothing**: a store that is saved replaces the file, and one that is not leaves
everything as it was. -/
theorem save_replaces_or_restores (s : Store) (t : Tree) (path name : String)
    (h : Path.fileName? path = some name) :
    (∃ after, s.save t path = (.ok (), after) ∧ Replaced s t after path) ∨
      ∃ fault after, s.save t path = (.error (.access path fault), after) ∧
        Prevents t path name fault ∧ Restored t after path := by
  cases hsave : s.save t path with
  | mk result after =>
    cases result with
    | ok _ =>
      obtain ⟨directory, name, hsaves, rfl⟩ := save_eq_ok_iff.mp hsave
      exact Or.inl ⟨_, rfl, hsaves.replaced s⟩
    | error failure =>
      refine Or.inr ?_
      unfold save at hsave
      dsimp only at hsave
      split at hsave
      case h_1 fault hwrite =>
        obtain ⟨hfailure, rfl⟩ := Prod.mk.inj hsave
        obtain rfl := Except.error.inj hfailure
        exact ⟨fault, _, rfl, restored_of_writeBytes h hwrite⟩
      case h_2 staged hwrite =>
        split at hsave
        case h_2 => cases hsave
        case h_1 fault hmove =>
          obtain ⟨hfailure, rfl⟩ := Prod.mk.inj hsave
          obtain rfl := Except.error.inj hfailure
          obtain ⟨-, place, hplace, hfree, rfl⟩ := Tree.writeBytes_eq_ok_iff.mp hwrite
          exact ⟨fault, _, rfl, restored_of_moveFile h hplace hfree hmove⟩

/-- A directory where a store is to be saved, and a file that was staged there before. -/
def occupied : Tree := ⟨[], [(["facts"], .directory), (["facts.tmp"], .file [])]⟩

theorem save_restores_occupied :
    Path.fileName? "facts" = some "facts" ∧
      ∃ fault after, empty.save occupied "facts" = (.error (.access "facts" fault), after) ∧
        Prevents occupied "facts" "facts" fault ∧ Restored occupied after "facts" := by
  have hname : Path.fileName? "facts" = some "facts" := by decide
  refine ⟨hname, (save_replaces_or_restores empty occupied "facts" "facts" hname).resolve_left ?_⟩
  rintro ⟨after, hsave, -⟩
  have hfails : (empty.save occupied "facts").1 = .error (.access "facts" .isDirectory) := by decide
  cases hfails.symm.trans (congrArg Prod.fst hsave)

end Store

end ArchFacts
