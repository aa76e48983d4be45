import ArchFacts.Directory.Access
import ArchFacts.Proofs.Directory.Naming
import ArchFacts.Proofs.Results

/-!
# Where a path leads

The place that steps lead to is known from the steps alone (`leadsTo`); walking along them is
finding out whether the directories on the way are there. A path that ends in a name leads to this
name in its directory (`Tree.locate_eq`), and its staging path to a place beside it in the same
directory (`Tree.locate_staging`).

Walking depends on the directories of a tree and on nothing else. A change that keeps them
(`Tree.Keeps`) leaves every path leading where it led; one that makes nothing new either
(`Tree.Keeps.walk_missing`) leaves missing what was missing.
-/

namespace ArchFacts.Directory

theorem checkName_ne_missing (name : String) : checkName name ≠ .error .missing := by
  unfold checkName
  split
  all_goals nofun

theorem checkPath_of_isName {name : String} (h : IsName name.toList)
    (hnull : '\x00' ∉ name.toList) (hshort : name.utf8ByteSize ≤ greatestPath) :
    checkPath name = .ok () := by
  have hne : name ≠ "" := fun heq => h.ne_nil (heq ▸ rfl)
  rw [checkPath, if_neg (by simpa using hnull), if_neg (Nat.not_lt.mpr hshort), if_neg hne]

/-! ### Steps without a tree -/

/-- The place that a step leads to from another. -/
def Step.leads (place : Place) : Step → Place
  | .stay => place
  | .up => place.dropLast
  | .enter name => place ++ [name]

/-- The place that some steps lead to from a directory on, if all on the way is there. -/
def leadsTo (place : Place) (steps : List Step) : Place := steps.foldl Step.leads place

theorem leadsTo_concat (place : Place) (steps : List Step) (step : Step) :
    leadsTo place (steps ++ [step]) = step.leads (leadsTo place steps) :=
  List.foldl_concat ..

namespace Tree

variable {t before after : Tree} {place directory : Place} {steps : List Step} {name path : String}

/-! ### Walking -/

theorem walk_enter (t : Tree) (place : Place) (name : String) (rest : List Step) :
    t.walk place (.enter name :: rest) = (do
      checkName name
      match t.get? (place ++ [name]) with
      | some .directory => t.walk (place ++ [name]) rest
      | some (.file _) => .error .notDirectory
      | none => .error .missing) := rfl

theorem walk_enter_eq_ok_iff {rest : List Step} :
    t.walk place (.enter name :: rest) = .ok directory ↔ checkName name = .ok () ∧
      t.get? (place ++ [name]) = some .directory ∧ t.walk (place ++ [name]) rest = .ok directory := by
  rw [walk_enter, bind_eq_ok]
  constructor
  · rintro ⟨⟨⟩, hname, h⟩
    split at h
    case h_1 hentry => exact ⟨hname, hentry, h⟩
    all_goals cases h
  · rintro ⟨hname, hentry, h⟩
    exact ⟨(), hname, by rw [hentry, h]⟩

theorem walk_append (t : Tree) (place : Place) (steps rest : List Step) :
    t.walk place (steps ++ rest) = t.walk place steps >>= fun directory => t.walk directory rest := by
  induction steps generalizing place with
  | nil => rfl
  | cons step steps ih =>
    cases step with
    | stay => exact ih place
    | up => exact ih place.dropLast
    | enter name =>
      rw [List.cons_append, walk_enter, walk_enter, bind_assoc]
      refine bind_congr fun _ => ?_
      split
      case h_1 => exact ih (place ++ [name])
      all_goals rfl

theorem walk_stays (t : Tree) (place : Place) (n : Nat) :
    t.walk place (List.replicate n .stay) = .ok place := by
  induction n with
  | zero => rfl
  | succ n ih => exact ih

theorem leadsTo_of_walk (h : t.walk place steps = .ok directory) : directory = leadsTo place steps := by
  induction steps generalizing place with
  | nil => exact (Except.ok.inj h).symm
  | cons step steps ih =>
    cases step with
    | stay => exact ih h
    | up => exact ih h
    | enter name => exact ih (walk_enter_eq_ok_iff.mp h).2.2

/-! ### The place of a path -/

theorem follow_concat (t : Tree) (place : Place) (steps : List Step) (name : String) :
    t.follow place (steps ++ [.enter name]) = (do
      let directory ← t.walk place steps
      checkName name
      return directory ++ [name]) := by
  rw [follow, List.getLast?_concat, List.dropLast_concat]

/-- Only a name at the end need not be there. -/
theorem follow_cases (steps : List Step) :
    (∃ front name, steps = front ++ [.enter name]) ∨
      ∀ (t : Tree) place, t.follow place steps = t.walk place steps := by
  rcases List.eq_nil_or_concat' steps with rfl | ⟨front, step, rfl⟩
  · exact Or.inr fun _ _ => rfl
  · cases step with
    | enter name => exact Or.inl ⟨front, name, rfl⟩
    | stay => exact Or.inr fun t place => by rw [follow, List.getLast?_concat]
    | up => exact Or.inr fun t place => by rw [follow, List.getLast?_concat]

/-- Where one can walk to, one can go. -/
theorem follow_of_walk (h : t.walk place steps = .ok directory) :
    t.follow place steps = .ok directory := by
  rcases follow_cases steps with ⟨front, name, rfl⟩ | hwalk
  · obtain ⟨inner, hinner, hlast⟩ := bind_eq_ok.mp ((walk_append ..).symm.trans h)
    obtain ⟨hname, -, hself⟩ := walk_enter_eq_ok_iff.mp hlast
    rw [follow_concat]
    exact bind_eq_ok.mpr ⟨inner, hinner, bind_eq_ok.mpr ⟨(), hname, hself⟩⟩
  · rwa [hwalk]

theorem leadsTo_of_follow (h : t.follow place steps = .ok directory) :
    directory = leadsTo place steps := by
  rcases follow_cases steps with ⟨front, name, rfl⟩ | hwalk
  · obtain ⟨inner, hinner, hlast⟩ := bind_eq_ok.mp ((follow_concat ..).symm.trans h)
    obtain ⟨-, -, hself⟩ := bind_eq_ok.mp hlast
    rw [leadsTo_concat, ← leadsTo_of_walk hinner]
    exact (Except.ok.inj hself).symm
  · exact leadsTo_of_walk ((hwalk t place).symm.trans h)

/-- The place of the directory that a path is in. -/
def directoryOf (t : Tree) (path : String) : Except Fault Place :=
  t.walk (t.start (.ofText (Path.above path))) (Path.ofText (Path.above path)).steps

theorem start_eq {first second : Path} (t : Tree) (h : first.absolute = second.absolute) :
    t.start first = t.start second := by
  rw [start, start, h]

/-- A path that ends in a name leads to this name in the directory it is in. -/
theorem locate_eq (h : Path.EndsIn path name) : t.locate path = (do
    checkPath path
    let directory ← t.directoryOf path
    checkName name
    return directory ++ [name]) := by
  obtain ⟨n, hsteps⟩ := h.steps_eq
  rw [locate, hsteps, follow_concat, walk_append, start_eq t h.absolute_above.symm, bind_assoc]
  refine bind_congr fun _ => bind_congr fun directory => ?_
  rw [walk_stays]
  rfl

/-- Its staging path leads to a place beside it. -/
theorem locate_staging (h : Path.EndsIn path name) : t.locate (Path.staging path) = (do
    checkPath (Path.staging path)
    let directory ← t.directoryOf path
    checkName (name ++ ".tmp")
    return directory ++ [name ++ ".tmp"]) := by
  rw [locate, h.steps_staging, follow_concat,
    start_eq t (h.absolute_staging.trans h.absolute_above.symm)]
  rfl

theorem namedIn_eq_ok_iff {path name : String} {found : Except Fault Place} : (do
      checkPath path
      let directory ← found
      checkName name
      return directory ++ [name]) = .ok place ↔
    checkPath path = .ok () ∧ checkName name = .ok () ∧
      ∃ directory, found = .ok directory ∧ place = directory ++ [name] := by
  constructor
  · intro hplace
    obtain ⟨⟨⟩, hcheck, hrest⟩ := bind_eq_ok.mp hplace
    obtain ⟨directory, hdirectory, hlast⟩ := bind_eq_ok.mp hrest
    obtain ⟨⟨⟩, hname, hself⟩ := bind_eq_ok.mp hlast
    exact ⟨hcheck, hname, directory, hdirectory, (Except.ok.inj hself).symm⟩
  · rintro ⟨hcheck, hname, directory, hdirectory, rfl⟩
    exact bind_eq_ok.mpr ⟨(), hcheck, bind_eq_ok.mpr ⟨directory, hdirectory,
      bind_eq_ok.mpr ⟨(), hname, rfl⟩⟩⟩

theorem locate_eq_ok_iff (h : Path.EndsIn path name) : t.locate path = .ok place ↔
    checkPath path = .ok () ∧ checkName name = .ok () ∧
      ∃ directory, t.directoryOf path = .ok directory ∧ place = directory ++ [name] := by
  rw [locate_eq h, namedIn_eq_ok_iff]

theorem locate_staging_eq_ok_iff (h : Path.EndsIn path name) :
    t.locate (Path.staging path) = .ok place ↔
      checkPath (Path.staging path) = .ok () ∧ checkName (name ++ ".tmp") = .ok () ∧
        ∃ directory, t.directoryOf path = .ok directory ∧
          place = directory ++ [name ++ ".tmp"] := by
  rw [locate_staging h, namedIn_eq_ok_iff]

/-- What a path leads to is there. -/
theorem locate_of_exists? (h : t.exists? path = .ok true) : ∃ place, t.locate path = .ok place := by
  unfold exists? at h
  split at h
  case h_1 entry hfind =>
    obtain ⟨place, hplace, -⟩ := bind_eq_ok.mp hfind
    exact ⟨place, hplace⟩
  all_goals cases h

theorem exists?_of_get?_eq_none (hplace : t.locate path = .ok place) (hnone : t.get? place = none) :
    t.exists? path = .ok false := by
  have hfind : t.find path = .error .missing :=
    bind_eq_error.mpr (Or.inr ⟨place, hplace, by rw [hnone]⟩)
  rw [exists?, hfind]

/-- Two trees with the same at the place of a path are the same to the path. -/
theorem find_congr (hbefore : before.locate path = .ok place) (hafter : after.locate path = .ok place)
    (hsame : after.get? place = before.get? place) : after.find path = before.find path := by
  unfold find
  rw [hbefore, hafter]
  dsimp only [bind, Except.bind]
  rw [hsame]

theorem readBytes_eq_ok_iff_find {bytes : List UInt8} :
    t.readBytes path = .ok bytes ↔ t.find path = .ok (.file bytes) := by
  unfold readBytes
  constructor
  · intro h
    split at h
    case h_1 hfind => rwa [← Except.ok.inj h]
    all_goals cases h
  · intro h
    rw [h]

/-- A file is read where its path leads to. -/
theorem readBytes_eq_ok_iff {bytes : List UInt8} : t.readBytes path = .ok bytes ↔
    ∃ place, t.locate path = .ok place ∧ t.get? place = some (.file bytes) ∧
      (Path.ofText path).slash = false := by
  rw [readBytes_eq_ok_iff_find]
  refine bind_eq_ok.trans (exists_congr fun place => and_congr_right fun _ => ?_)
  constructor
  · intro h
    split at h
    case h_1 => cases h
    case h_2 hentry =>
      split at h
      case isTrue => cases h
      case isFalse hslash =>
        obtain rfl := Entry.file.inj (Except.ok.inj h)
        exact ⟨hentry, eq_false_of_ne_true hslash⟩
    case h_3 => cases h
  · rintro ⟨hentry, hslash⟩
    rw [hentry, hslash]
    rfl

theorem exists?_of_readBytes {bytes : List UInt8} (h : t.readBytes path = .ok bytes) :
    t.exists? path = .ok true := by
  rw [exists?, readBytes_eq_ok_iff_find.mp h]

/-! ### Trees with the same directories -/

/-- The directories of a tree are there in another one as well. -/
structure Keeps (before after : Tree) : Prop where
  current : after.current = before.current
  directory : ∀ place, before.get? place = some .directory → after.get? place = some .directory

namespace Keeps

theorem trans {between : Tree} (h : before.Keeps between) (h' : between.Keeps after) :
    before.Keeps after :=
  ⟨h'.current.trans h.current, fun place hplace => h'.directory place (h.directory place hplace)⟩

theorem erase (h : t.get? place ≠ some .directory) : t.Keeps (t.erase place) where
  current := rfl
  directory p hp := by
    have hne : p ≠ place := fun heq => h (heq ▸ hp)
    have hroot : place ≠ [] := fun heq => h (if_pos heq)
    rw [get?_erase t place p hroot, if_neg hne, hp]

theorem put (h : t.get? place ≠ some .directory) (entry : Entry) : t.Keeps (t.put place entry) where
  current := rfl
  directory p hp := by
    have hne : p ≠ place := fun heq => h (heq ▸ hp)
    have hroot : place ≠ [] := fun heq => h (if_pos heq)
    rw [get?_put t place p entry hroot, if_neg hne, hp]

theorem start (h : before.Keeps after) (path : Path) : after.start path = before.start path := by
  rw [Tree.start, Tree.start, h.current]

theorem walk (h : before.Keeps after) (hwalk : before.walk place steps = .ok directory) :
    after.walk place steps = .ok directory := by
  induction steps generalizing place with
  | nil => exact hwalk
  | cons step steps ih =>
    cases step with
    | stay => exact ih hwalk
    | up => exact ih hwalk
    | enter name =>
      obtain ⟨hname, hentry, hrest⟩ := walk_enter_eq_ok_iff.mp hwalk
      exact walk_enter_eq_ok_iff.mpr ⟨hname, h.directory _ hentry, ih hrest⟩

theorem follow (h : before.Keeps after) (hfollow : before.follow place steps = .ok directory) :
    after.follow place steps = .ok directory := by
  rcases follow_cases steps with ⟨front, name, rfl⟩ | hwalk
  · rw [follow_concat] at hfollow ⊢
    obtain ⟨inner, hinner, hlast⟩ := bind_eq_ok.mp hfollow
    exact bind_eq_ok.mpr ⟨inner, h.walk hinner, hlast⟩
  · rw [hwalk] at hfollow ⊢
    exact h.walk hfollow

theorem directoryOf (h : before.Keeps after) (hpath : before.directoryOf path = .ok directory) :
    after.directoryOf path = .ok directory := by
  rw [Tree.directoryOf, h.start]
  exact h.walk hpath

theorem locate (h : before.Keeps after) (hpath : before.locate path = .ok place) :
    after.locate path = .ok place := by
  obtain ⟨⟨⟩, hcheck, hfollow⟩ := bind_eq_ok.mp hpath
  refine bind_eq_ok.mpr ⟨(), hcheck, ?_⟩
  rw [h.start]
  exact h.follow hfollow

variable (hnone : ∀ place, before.get? place = none → after.get? place = none)
include hnone

theorem walk_missing (h : before.Keeps after) (hwalk : before.walk place steps = .error .missing) :
    after.walk place steps = .error .missing := by
  induction steps generalizing place with
  | nil => cases hwalk
  | cons step steps ih =>
    cases step with
    | stay => exact ih hwalk
    | up => exact ih hwalk
    | enter name =>
      rw [walk_enter] at hwalk
      rcases bind_eq_error.mp hwalk with hname | ⟨⟨⟩, hname, hrest⟩
      · exact absurd hname (checkName_ne_missing name)
      · refine bind_eq_error.mpr (Or.inr ⟨(), hname, ?_⟩)
        split at hrest
        case h_1 hentry =>
          rw [h.directory _ hentry]
          exact ih hrest
        case h_2 => cases hrest
        case h_3 hentry => rw [hnone _ hentry]

theorem follow_missing (h : before.Keeps after)
    (hfollow : before.follow place steps = .error .missing) :
    after.follow place steps = .error .missing := by
  rcases follow_cases steps with ⟨front, name, rfl⟩ | hwalk
  · rw [follow_concat] at hfollow ⊢
    rcases bind_eq_error.mp hfollow with hwalk | ⟨inner, -, hlast⟩
    · exact bind_eq_error.mpr (Or.inl (h.walk_missing hnone hwalk))
    · rcases bind_eq_error.mp hlast with hname | ⟨-, -, hpure⟩
      · exact absurd hname (checkName_ne_missing name)
      · cases hpure
  · rw [hwalk] at hfollow ⊢
    exact h.walk_missing hnone hfollow

/-- What is missing is still missing where nothing new was made. -/
theorem exists?_eq_false (h : before.Keeps after) (hpath : before.exists? path = .ok false) :
    after.exists? path = .ok false := by
  have hfind : before.find path = .error .missing := by
    unfold exists? at hpath
    split at hpath
    case h_2 hfind => exact hfind
    all_goals cases hpath
  suffices after.find path = .error .missing by rw [exists?, this]
  rcases bind_eq_error.mp hfind with hlocate | ⟨place, hlocate, hentry⟩
  · refine bind_eq_error.mpr (Or.inl ?_)
    rcases bind_eq_error.mp hlocate with hcheck | ⟨⟨⟩, hcheck, hfollow⟩
    · exact bind_eq_error.mpr (Or.inl hcheck)
    · refine bind_eq_error.mpr (Or.inr ⟨(), hcheck, ?_⟩)
      rw [h.start]
      exact h.follow_missing hnone hfollow
  · refine bind_eq_error.mpr (Or.inr ⟨place, h.locate hlocate, ?_⟩)
    split at hentry
    case h_1 hget => rw [hnone place hget]
    case h_2 =>
      split at hentry
      all_goals cases hentry
    case h_3 => cases hentry

end Keeps

end Tree

end ArchFacts.Directory
