import ArchFacts.Proofs.CommandLine.Files
import ArchFacts.Proofs.Store.History

/-!
# Importing

The command to import adds the facts of one file to those of the file of facts, and relabels the new
ones alone (`ImportCommand.relabel`). It saves them all, if everything could be read; otherwise the
tree stays as it is (`run_import`).
-/

namespace ArchFacts.CommandLine

open Directory
open Json (Value)

variable {tree after : Tree} {c : Context} {old new facts : List Fact} {i : Invocation}
  {command : ImportCommand}

/-- What an import does to a fact that it brings in. -/
def ImportCommand.relabel (command : ImportCommand) (f : Fact) : Fact :=
  match command.repo, command.path with
  | some repo, some path => f.relocate repo path
  | some repo, none => f.withRepo repo
  | none, _ => f

/-- The number of facts that an import labels, of those that it brings in. -/
def ImportCommand.tagged (command : ImportCommand) (new : List Fact) : Nat :=
  if command.repo.isSome then new.length else 0

/-- The report of an import. -/
def importReport (command : ImportCommand) (old new : List Fact) : Value :=
  .ofPairs
    [("imported", .ofNat new.length),
     ("tagged", .ofNat (command.tagged new)),
     ("total", .ofNat (old.length + new.length))]

/-! ### Labelling -/

section

variable {s added : Store}

theorem changeFrom_added (hadded : added.facts = s.facts ++ new) (change : Fact → Fact) :
    (added.changeFrom s.count change).1.facts = s.facts ++ new.map change ∧
      (added.changeFrom s.count change).2 = new.length := by
  have hcount : added.count = s.count + new.length := by
    rw [Store.count, hadded, List.length_append]
    rfl
  constructor
  · rw [Store.facts_changeFrom, hadded, Store.count, List.take_left, List.drop_left]
  · unfold Store.changeFrom
    split
    case isTrue hle => exact (Nat.eq_zero_of_le_zero (by omega)).symm
    case isFalse => exact (congrArg (· - _) hcount).trans (Nat.add_sub_cancel_left ..)

/-- Only the facts that were added are labelled, and they are counted. -/
theorem label_added (command : ImportCommand) (hadded : added.facts = s.facts ++ new) :
    (command.label added s.count).1.facts = s.facts ++ new.map command.relabel ∧
      (command.label added s.count).2 = command.tagged new := by
  obtain ⟨file, repo, path⟩ := command
  cases repo with
  | none =>
    refine ⟨hadded.trans (congrArg (s.facts ++ ·) ?_), rfl⟩
    exact (List.map_id new).symm
  | some repo =>
    cases path with
    | none => exact changeFrom_added hadded (·.withRepo repo)
    | some path => exact changeFrom_added hadded (·.relocate repo path)

end

/-! ### The command -/

theorem runImport_of_opened {s : Store} (hopened : c.openOrEmpty tree = .ok s)
    (hnew : Store.factsIn tree command.file = .ok new) :
    let labelled := command.label (s.pushAll new) s.count
    let saved := c.saveStore tree labelled.1
    runImport c tree command = (saved.1.map fun _ => .ofPairs
      [("imported", .ofNat ((s.pushAll new).count - s.count)),
       ("tagged", .ofNat labelled.2),
       ("total", .ofNat labelled.1.count)], saved.2) := by
  rw [runImport, hopened]
  dsimp only
  rw [Store.load, hnew]
  rfl

theorem runImport_of_facts (hold : Holds tree c.data old)
    (hnew : Store.factsIn tree command.file = .ok new) :
    let saved := c.saveStore tree (Store.empty.pushAll (old ++ new.map command.relabel))
    runImport c tree command = (saved.1.map fun _ => importReport command old new, saved.2) := by
  intro saved
  have hopened : (Store.empty.pushAll old).facts = old := Store.facts_pushAll .empty old
  have hadded := Store.facts_pushAll (Store.empty.pushAll old) new
  obtain ⟨hfacts, htagged⟩ := label_added command hadded
  rw [hopened] at hadded hfacts
  have hcount : ((Store.empty.pushAll old).pushAll new).count - (Store.empty.pushAll old).count =
      new.length := by
    rw [Store.count, Store.count, hadded, hopened, List.length_append, Nat.add_sub_cancel_left]
  have htotal : (command.label ((Store.empty.pushAll old).pushAll new)
      (Store.empty.pushAll old).count).1.count = old.length + new.length := by
    rw [Store.count, hfacts, List.length_append, List.length_map]
  rw [runImport_of_opened (openOrEmpty_of_holds hold) hnew, hcount, htagged, htotal,
    saveStore_congr c tree (hfacts.trans (Store.facts_pushAll .empty _).symm)]
  rfl

theorem runImport_of_unread (h : ¬∃ old new, Holds tree c.data old ∧
    Store.factsIn tree command.file = .ok new) : ∃ e, runImport c tree command = (.error e, tree) := by
  rw [runImport]
  by_cases hold : ∃ old, Holds tree c.data old
  · obtain ⟨old, hold⟩ := hold
    rw [openOrEmpty_of_holds hold]
    cases hnew : Store.factsIn tree command.file with
    | ok new => exact absurd ⟨old, new, hold, hnew⟩ h
    | error cause =>
      refine ⟨.during "Failed to import" command.file cause, ?_⟩
      dsimp only
      rw [Store.load, hnew]
      rfl
  · obtain ⟨e, he⟩ := openOrEmpty_of_not_holds (not_exists.mp hold)
    exact ⟨e, by rw [he]⟩

/-- **Importing**: what is read is saved, with the imported facts relabelled, and reported; what
cannot be read leaves the tree as it is. -/
theorem run_import (h : i.command = .importFile command) (tree : Tree) :
    (∀ c old new, Context.load tree i = .ok c → Holds tree c.data old →
      Store.factsIn tree command.file = .ok new →
      let facts := old ++ new.map command.relabel
      let saved := c.saveStore tree (Store.empty.pushAll facts)
      run i tree = (saved.1.map fun _ => importReport command old new, saved.2) ∧
        (saved.1 = .ok () → Saved tree saved.2 c.data facts)) ∧
    (¬(∃ c old new, Context.load tree i = .ok c ∧ Holds tree c.data old ∧
        Store.factsIn tree command.file = .ok new) →
      ∃ e, run i tree = (.error e, tree)) := by
  constructor
  · intro c old new hload hold hnew facts saved
    refine ⟨?_, fun hsaved => ?_⟩
    · rw [run, hload, h]
      exact runImport_of_facts hold hnew
    · have hfacts := saved_of_saveStore (Prod.ext hsaved rfl : saved = (.ok (), saved.2))
      rwa [Store.facts_pushAll] at hfacts
  · intro hnone
    cases hload : Context.load tree i with
    | error e => exact ⟨e, run_of_not_loaded hload⟩
    | ok c =>
      rw [run, hload, h]
      refine runImport_of_unread fun hread => hnone ?_
      obtain ⟨old, new, hread⟩ := hread
      exact ⟨c, old, new, hload, hread⟩

/-- A fact that is kept, and one that is brought in. -/
def kept : Fact := { Fact.of .symbol "a" with file := "a.rs", repo := "home" }

@[inherit_doc kept]
def brought : Fact := { Fact.of .route "b" with file := "b.rs", repo := "guest" }

/-- A file of facts and another one. -/
def twoFiles : Tree where
  current := []
  entries :=
    [(["facts"], .file (Records.writeBytes Fact.write [kept])),
     (["other"], .file (Records.writeBytes Fact.write [brought]))]

theorem savesAt_twoFiles : Store.SavesAt twoFiles "facts" [] "facts" :=
  .of_isName ⟨by decide, by decide⟩ (by decide) (by decide) nofun nofun

theorem run_import_twoFiles :
    let i : Invocation := ⟨none, some "facts", .importFile ⟨"other", some "lib", some "lib/"⟩⟩
    (run i twoFiles).1 = .ok (.ofPairs
      [("imported", .ofNat 1), ("tagged", .ofNat 1), ("total", .ofNat 2)]) ∧
    Saved twoFiles (run i twoFiles).2 "facts"
      [kept, { brought with file := "lib/b.rs", repo := "lib" }] := by
  intro i
  have hkept : kept.Writable := ⟨trivial, ⟨List.Pairwise.nil, trivial⟩, by decide⟩
  have hbrought : brought.Writable := ⟨trivial, ⟨List.Pairwise.nil, trivial⟩, by decide⟩
  have habsent : twoFiles.exists? Config.standardPath = .ok false := rfl
  have hload : Context.load twoFiles i = .ok ⟨.standard, "facts"⟩ := load_of_absent habsent
  have hold : Holds twoFiles "facts" [kept] :=
    .present rfl (factsIn_of_writeBytes rfl (List.forall_mem_singleton.mpr hkept))
  have hnew : Store.factsIn twoFiles "other" = .ok [brought] :=
    factsIn_of_writeBytes rfl (List.forall_mem_singleton.mpr hbrought)
  obtain ⟨hrun, hsaved⟩ := (run_import (i := i) rfl twoFiles).1 _ _ _ hload hold hnew
  have hsave (s : Store) : (Context.saveStore ⟨.standard, "facts"⟩ twoFiles s).1 = .ok () :=
    congrArg Prod.fst (saveStore_of_savesAt rfl savesAt_twoFiles s)
  rw [hrun]
  refine ⟨?_, hsaved (hsave _)⟩
  dsimp only
  rw [hsave]
  rfl

end ArchFacts.CommandLine
