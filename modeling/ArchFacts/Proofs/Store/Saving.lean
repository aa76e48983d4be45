import ArchFacts.Proofs.Directory.Writing
import ArchFacts.Store.Persistence

/-!
# What saving leaves

A store can be saved in a path that ends in a name, if neither this name nor the one with `.tmp`
behind it is that of a directory (`Store.SavesAt`). Then the contents of the store stand in the
file, nothing stands under the staging name any more, and nothing else has changed
(`Store.get?_savedTree`). Saving succeeds in no other way (`Store.save_eq_ok_iff`), and can be done
again and again (`Store.SavesAt.again`, `Store.savedTree_again`).
-/

namespace ArchFacts

open Directory

namespace Store

variable {t after : Tree} {path name : String} {directory : Place} {s : Store}

/-- The tree after a file was staged beside its place and moved there. -/
def savedTree (t : Tree) (directory : Place) (name : String) (bytes : List UInt8) : Tree :=
  (t.erase (directory ++ [name ++ ".tmp"])).put (directory ++ [name]) (.file bytes)

theorem staged_ne (directory : Place) (name : String) :
    directory ++ [name] ≠ directory ++ [name ++ ".tmp"] := by
  intro h
  have hname : name = name ++ ".tmp" := (List.cons.inj (List.append_cancel_left h)).1
  have hlength := congrArg String.length hname
  rw [String.length_append] at hlength
  exact absurd hlength (Nat.ne_of_lt (Nat.lt_add_of_pos_right (by decide)))

theorem get?_savedTree (t : Tree) (directory : Place) (name : String) (bytes : List UInt8) (p : Place) :
    (savedTree t directory name bytes).get? p =
      if p = directory ++ [name] then some (.file bytes)
      else if p = directory ++ [name ++ ".tmp"] then none else t.get? p := by
  rw [savedTree, Tree.get?_put _ _ _ _ (List.concat_ne_nil _ _),
    Tree.get?_erase _ _ _ (List.concat_ne_nil _ _)]

/-- Saving the same again changes nothing. -/
theorem savedTree_again (t : Tree) (directory : Place) (name : String) (bytes : List UInt8) :
    savedTree (savedTree t directory name bytes) directory name bytes =
      savedTree t directory name bytes := by
  unfold savedTree
  rw [Tree.erase_put_erase (staged_ne directory name)]
  exact Tree.put_put ..

/-! ### When saving succeeds -/

/-- A store can be saved in a path, under a name in a directory. -/
structure SavesAt (t : Tree) (path : String) (directory : Place) (name : String) : Prop where
  endsIn : Path.EndsIn path name
  target : t.locate path = .ok (directory ++ [name])
  staging : t.locate (Path.staging path) = .ok (directory ++ [name ++ ".tmp"])
  target_free : t.get? (directory ++ [name]) ≠ some .directory
  staging_free : t.get? (directory ++ [name ++ ".tmp"]) ≠ some .directory

namespace SavesAt

/-- One can save under a name in the current directory that leaves room for the staging name. -/
theorem of_isName (h : IsName name.toList) (hnull : '\x00' ∉ name.toList)
    (hshort : (name ++ ".tmp").utf8ByteSize ≤ greatestName)
    (htarget : t.get? (t.current ++ [name]) ≠ some .directory)
    (hstaging : t.get? (t.current ++ [name ++ ".tmp"]) ≠ some .directory) :
    SavesAt t name t.current name := by
  have hends : Path.EndsIn name name := ⟨h, Or.inl rfl⟩
  have hdirectory : t.directoryOf name = .ok t.current := by
    rw [Tree.directoryOf, Path.above_name h]
    rfl
  have hstaged : Path.staging name = name ++ ".tmp" := by
    rw [hends.staging_eq, Path.above_name h]
    exact if_pos rfl
  have hlength : (name ++ ".tmp").utf8ByteSize = name.utf8ByteSize + 4 := by
    rw [String.utf8ByteSize_append]
    rfl
  have hgreatest : greatestName ≤ greatestPath := by decide
  refine ⟨hends, (Tree.locate_eq_ok_iff hends).mpr ⟨?_, ?_, _, hdirectory, rfl⟩,
    (Tree.locate_staging_eq_ok_iff hends).mpr ⟨?_, ?_, _, hdirectory, rfl⟩, htarget, hstaging⟩
  · exact checkPath_of_isName h hnull (by omega)
  · exact if_neg (by omega)
  · rw [hstaged]
    exact checkPath_of_isName hends.isName_staged (by simp [hnull]) (by omega)
  · exact if_neg (by omega)

theorem keeps (h : SavesAt t path directory name) (bytes : List UInt8) :
    t.Keeps (savedTree t directory name bytes) := by
  refine (Tree.Keeps.erase h.staging_free).trans (Tree.Keeps.put ?_ _)
  rw [Tree.get?_erase _ _ _ (List.concat_ne_nil _ _), if_neg (staged_ne directory name)]
  exact h.target_free

/-- What was saved can be saved again. -/
theorem again (h : SavesAt t path directory name) (bytes : List UInt8) :
    SavesAt (savedTree t directory name bytes) path directory name where
  endsIn := h.endsIn
  target := (h.keeps bytes).locate h.target
  staging := (h.keeps bytes).locate h.staging
  target_free := by rw [get?_savedTree, if_pos rfl]; nofun
  staging_free := by
    rw [get?_savedTree, if_neg (staged_ne directory name).symm, if_pos rfl]
    nofun

/-- The file holds what was saved. -/
theorem readBytes (h : SavesAt t path directory name) (bytes : List UInt8) :
    (savedTree t directory name bytes).readBytes path = .ok bytes := by
  refine Tree.readBytes_eq_ok_iff.mpr ⟨_, (h.again bytes).target, ?_, h.endsIn.slash_eq⟩
  rw [get?_savedTree, if_pos rfl]

end SavesAt

section

variable {staging target : Place} {bytes : List UInt8}

/-- A staged file is where it was staged. -/
theorem readBytes_staged (h : t.locate (Path.staging path) = .ok staging)
    (hfree : t.get? staging ≠ some .directory)
    (hslash : (Path.ofText (Path.staging path)).slash = false) :
    (t.put staging (.file bytes)).locate (Path.staging path) = .ok staging ∧
      (t.put staging (.file bytes)).readBytes (Path.staging path) = .ok bytes := by
  have hplace := (Tree.Keeps.put hfree (.file bytes)).locate h
  have hroot : staging ≠ [] := fun heq => hfree (if_pos heq)
  refine ⟨hplace, Tree.readBytes_eq_ok_iff.mpr ⟨staging, hplace, ?_, hslash⟩⟩
  rw [Tree.get?_put _ _ _ _ hroot, if_pos rfl]

/-- A path in which a file was staged and has its place is one to save in. -/
theorem savesAt_of_staged (h : Path.EndsIn path name)
    (hstaging : t.locate (Path.staging path) = .ok staging)
    (hstagingFree : t.get? staging ≠ some .directory)
    (htarget : (t.put staging (.file bytes)).locate path = .ok target)
    (htargetFree : (t.put staging (.file bytes)).get? target ≠ some .directory) :
    ∃ directory, SavesAt t path directory name ∧ target = directory ++ [name] ∧
      staging = directory ++ [name ++ ".tmp"] := by
  obtain ⟨-, -, directory, hdirectory, rfl⟩ := (Tree.locate_staging_eq_ok_iff h).mp hstaging
  obtain ⟨hpath, hname, directory', hdirectory', rfl⟩ := (Tree.locate_eq_ok_iff h).mp htarget
  -- the file that is staged is no directory on the way
  have hkeeps := Tree.Keeps.put hstagingFree (.file bytes)
  obtain rfl : directory = directory' :=
    Except.ok.inj ((hkeeps.directoryOf hdirectory).symm.trans hdirectory')
  rw [Tree.get?_put _ _ _ _ (List.concat_ne_nil _ _), if_neg (staged_ne directory name)]
    at htargetFree
  have htarget : t.locate path = .ok (directory ++ [name]) :=
    (Tree.locate_eq_ok_iff h).mpr ⟨hpath, hname, directory, hdirectory, rfl⟩
  exact ⟨directory, ⟨h, htarget, hstaging, htargetFree, hstagingFree⟩, rfl, rfl⟩

end

theorem SavesAt.moveFile (h : SavesAt t path directory name) (bytes : List UInt8) :
    (t.put (directory ++ [name ++ ".tmp"]) (.file bytes)).moveFile (Path.staging path) path =
      .ok (savedTree t directory name bytes) := by
  obtain ⟨hplace, hread⟩ := readBytes_staged h.staging h.staging_free h.endsIn.endsIn_staging.slash_eq
  have hkeeps := Tree.Keeps.put h.staging_free (.file bytes)
  refine Tree.moveFile_eq_ok_iff.mpr ⟨bytes, _, _, name, hread, hplace, hkeeps.locate h.target,
    h.endsIn.getLast?_steps, h.endsIn.slash_eq, ?_, ?_⟩
  · rw [Tree.get?_put _ _ _ _ (List.concat_ne_nil _ _), if_neg (staged_ne directory name)]
    exact h.target_free
  · rw [Tree.erase_put, savedTree]

/-- **Saving a store**, and no other way for it to succeed. -/
theorem save_eq_ok_iff : s.save t path = (.ok (), after) ↔
    ∃ directory name, SavesAt t path directory name ∧
      after = savedTree t directory name s.contents := by
  unfold save
  constructor
  · intro h
    dsimp only at h
    split at h
    case h_1 => cases h
    case h_2 staged hwrite =>
      split at h
      case h_1 => cases h
      case h_2 moved hmove =>
        obtain ⟨hstagingSlash, staging, hstaging, hstagingFree, rfl⟩ :=
          Tree.writeBytes_eq_ok_iff.mp hwrite
        obtain ⟨bytes, old, target, name, hread, hold, htarget, hlast, hslash, htargetFree, rfl⟩ :=
          Tree.moveFile_eq_ok_iff.mp hmove
        obtain ⟨directory, hsaves, rfl, rfl⟩ := savesAt_of_staged (.of_steps hlast hslash) hstaging
          hstagingFree htarget htargetFree
        obtain ⟨hplace, hcontents⟩ := readBytes_staged hstaging hstagingFree hstagingSlash
        obtain rfl := Except.ok.inj (hold.symm.trans hplace)
        obtain rfl := Except.ok.inj (hread.symm.trans hcontents)
        refine ⟨directory, name, hsaves, (Prod.mk.inj h).2.symm.trans ?_⟩
        exact congrArg (Tree.put · _ _) (Tree.erase_put ..)
  · rintro ⟨directory, name, h, rfl⟩
    have hwrite : t.writeBytes (Path.staging path) s.contents =
        .ok (t.put (directory ++ [name ++ ".tmp"]) (.file s.contents)) :=
      Tree.writeBytes_eq_ok_iff.mpr
        ⟨h.endsIn.endsIn_staging.slash_eq, _, h.staging, h.staging_free, rfl⟩
    simp only [hwrite, h.moveFile]

end Store

end ArchFacts
