import ArchFacts.CommandLine.Run
import ArchFacts.Proofs.Directory.Rooted
import ArchFacts.Proofs.Fact.Proper
import ArchFacts.Proofs.Records.Stream
import ArchFacts.Proofs.Store.Persistence
import ArchFacts.Proofs.Store.Saving
import ArchFacts.Proofs.Text.Utf8

/-!
# The files of a command

A command that changes anything reads the file of facts first and saves it at the end. What it reads
are the facts that the file holds (`Holds`). What it leaves, if it can save them, is the file with the
new facts and at most some directories more on the way to it (`Saved`, `saved_of_saveStore`).
-/

namespace ArchFacts.CommandLine

open Directory

variable {tree after : Tree} {c : Context} {facts : List Fact} {store : Store} {path : String}

/-! ### The configuration -/

/-- Without a file of configuration the standard one is taken. -/
theorem load_of_absent {i : Invocation}
    (h : tree.exists? (i.config.getD Config.standardPath) = .ok false) :
    Context.load tree i = .ok ⟨.standard, i.data.getD Config.standard.dataFile⟩ := by
  rw [Context.load, Config.loadOrStandard, h]

/-- The configuration is what the text of its file says. -/
theorem load_of_text {i : Invocation} {text : List Char}
    (h : tree.readBytes (i.config.getD Config.standardPath) = .ok (Text.Utf8.encode text)) :
    Context.load tree i = match Config.read text with
      | some config => .ok ⟨config, i.data.getD config.dataFile⟩
      | none => .error (.bare (.configuration (i.config.getD Config.standardPath))) := by
  have hexists := Tree.exists?_of_readBytes h
  have htext : tree.readText (i.config.getD Config.standardPath) = .ok text := by
    rw [Tree.readText, h]
    dsimp only
    rw [Text.Utf8.decode_encode]
  rw [Context.load, Config.loadOrStandard, hexists]
  dsimp only
  rw [Config.load, htext]
  dsimp only
  cases Config.read text <;> rfl

/-- The configuration depends only on what is found where it should be. -/
theorem load_congr {i : Invocation}
    (h : after.find (i.config.getD Config.standardPath) =
      tree.find (i.config.getD Config.standardPath)) :
    Context.load after i = Context.load tree i := by
  unfold Context.load Config.loadOrStandard Config.load Tree.readText Tree.readBytes Tree.exists?
  rw [h]

theorem run_of_not_loaded {i : Invocation} {e : RunError} (h : Context.load tree i = .error e) :
    run i tree = (.error e, tree) := by
  rw [run, h]

theorem data_of_load {i : Invocation} {data : String} (h : Context.load tree i = .ok c)
    (hdata : i.data = some data) : c.data = data := by
  unfold Context.load at h
  split at h
  case h_1 => rw [← Except.ok.inj h, hdata, Option.getD_some]
  case h_2 => cases h

/-! ### Facts that are read -/

/-- A file of written facts holds these facts. -/
theorem factsIn_of_writeBytes (h : tree.readBytes path = .ok (Records.writeBytes Fact.write facts))
    (hwritable : ∀ f ∈ facts, f.Writable) : Store.factsIn tree path = .ok facts := by
  rw [Store.factsIn, h]
  exact mapError_eq_ok.mpr (Fact.read_writeBytes hwritable)

/-- The facts in a file can be written again, unless there is a double in them. -/
theorem proper_factsIn (h : Store.factsIn tree path = .ok facts) :
    (∃ bytes, tree.readBytes path = .ok bytes) ∧ ∀ f ∈ facts, f.Proper := by
  unfold Store.factsIn at h
  split at h
  case h_1 bytes hbytes =>
    refine ⟨⟨bytes, hbytes⟩, fun f hf => ?_⟩
    have hall : (Records.Reader.ofBytes bytes).all Fact.read =
        (.ok facts, ((Records.Reader.ofBytes bytes).all Fact.read).2) :=
      Prod.ext (mapError_eq_ok.mp h) rfl
    obtain ⟨text, htext⟩ := (Records.Reader.all_eq_ok_iff.mp hall).1.exists_text f hf
    exact Fact.proper_read htext
  case h_2 => cases h

/-- The facts that a file of facts holds; there are none if there is no file. -/
inductive Holds (tree : Tree) (path : String) : List Fact → Prop where
  | absent (h : tree.exists? path = .ok false) : Holds tree path []
  | present {facts : List Fact} (hthere : tree.exists? path = .ok true)
      (hfacts : Store.factsIn tree path = .ok facts) : Holds tree path facts

theorem openStore_of_factsIn (h : Store.factsIn tree c.data = .ok facts) :
    c.openStore tree = .ok (Store.empty.pushAll facts) := by
  rw [Context.openStore, Store.openFile, h]
  rfl

theorem openOrEmpty_of_holds (h : Holds tree c.data facts) :
    c.openOrEmpty tree = .ok (Store.empty.pushAll facts) := by
  rw [Context.openOrEmpty]
  cases h with
  | absent h => rw [h]; rfl
  | present hthere hfacts =>
    rw [hthere]
    exact openStore_of_factsIn hfacts

/-- A store is opened only with the facts of its file. -/
theorem openOrEmpty_of_not_holds (h : ∀ facts, ¬Holds tree c.data facts) :
    ∃ e, c.openOrEmpty tree = .error e := by
  rw [Context.openOrEmpty]
  cases hexists : tree.exists? c.data with
  | error fault => exact ⟨_, rfl⟩
  | ok there =>
    cases there with
    | false => exact absurd (.absent hexists) (h [])
    | true =>
      cases hfacts : Store.factsIn tree c.data with
      | ok facts => exact absurd (.present hexists hfacts) (h facts)
      | error cause =>
        refine ⟨.during "Failed to load facts from" c.data cause, ?_⟩
        rw [Context.openStore, Store.openFile, hfacts]
        rfl

/-! ### Facts that are saved -/

theorem saveStore_congr {other : Store} (c : Context) (tree : Tree) (h : store.facts = other.facts) :
    c.saveStore tree store = c.saveStore tree other := by
  unfold Context.saveStore Store.save Store.contents
  rw [h]

theorem saveStore_eq_ok_iff : c.saveStore tree store = (.ok (), after) ↔
    ∃ grown, tree.makeDirectories (Path.above c.data) = (.ok (), grown) ∧
      store.save grown c.data = (.ok (), after) := by
  rw [Context.saveStore]
  rcases tree.makeDirectories (Path.above c.data) with ⟨fault | ⟨⟩, grown⟩
  · constructor
    all_goals nofun
  · constructor
    · intro h
      obtain ⟨hsaved, htree⟩ := Prod.mk.inj h
      exact ⟨grown, rfl, Prod.ext (mapError_eq_ok.mp hsaved) htree⟩
    · rintro ⟨_, ⟨⟩, hsave⟩
      simp only [hsave]
      rfl

theorem saveStore_of_savesAt {directory : Place} {name : String}
    (hmake : tree.makeDirectories (Path.above c.data) = (.ok (), tree))
    (hsaves : Store.SavesAt tree c.data directory name) (store : Store) :
    c.saveStore tree store = (.ok (), Store.savedTree tree directory name store.contents) :=
  saveStore_eq_ok_iff.mpr
    ⟨tree, hmake, Store.save_eq_ok_iff.mpr ⟨directory, name, hsaves, rfl⟩⟩

/-- What differs in a tree after facts were saved in a file: the file, what stood under its staging
name, and directories that were missing on the way to it. -/
structure Saved (before after : Tree) (path : String) (facts : List Fact) : Prop where
  current : after.current = before.current
  contents : after.readBytes path = .ok (Records.writeBytes Fact.write facts)
  places : ∃ directory name,
    after.locate path = .ok (directory ++ [name]) ∧
    after.locate (Path.staging path) = .ok (directory ++ [name ++ ".tmp"]) ∧
    after.get? (directory ++ [name ++ ".tmp"]) = none ∧
    ∀ p, p ≠ directory ++ [name] → p ≠ directory ++ [name ++ ".tmp"] →
      after.get? p = before.get? p ∨
        before.get? p = none ∧ after.get? p = some .directory ∧
          ∃ front, front <+: (Path.ofText (Path.above path)).steps ∧
            p = leadsTo (before.start (.ofText path)) front

theorem saved_of_saveStore (h : c.saveStore tree store = (.ok (), after)) :
    Saved tree after c.data store.facts := by
  obtain ⟨grown, hmake, hsave⟩ := saveStore_eq_ok_iff.mp h
  obtain ⟨directory, name, hsaves, rfl⟩ := Store.save_eq_ok_iff.mp hsave
  have hgrown := tree.grown_makeDirectories (Path.above c.data)
  rw [hmake, Tree.start_eq tree hsaves.endsIn.absolute_above] at hgrown
  have hagain := hsaves.again store.contents
  refine ⟨hgrown.current, hsaves.readBytes _, directory, name, hagain.target, hagain.staging, ?_,
    fun p hp hstaging => ?_⟩
  · rw [Store.get?_savedTree, if_neg (Store.staged_ne directory name).symm, if_pos rfl]
  · rw [Store.get?_savedTree, if_neg hp, if_neg hstaging]
    exact hgrown.view p

/-! ### Saving in a file that is there -/

section

variable {bytes : List UInt8}

/-- Above a file that is there, no directory has to be made. -/
theorem savesAt_of_saveStore (hrooted : tree.Rooted) (hread : tree.readBytes c.data = .ok bytes)
    (h : c.saveStore tree store = (.ok (), after)) :
    tree.makeDirectories (Path.above c.data) = (.ok (), tree) ∧
      ∃ directory name, Store.SavesAt tree c.data directory name ∧
        after = Store.savedTree tree directory name store.contents := by
  obtain ⟨grown, hmake, hsave⟩ := saveStore_eq_ok_iff.mp h
  obtain ⟨directory, name, hsaves, hafter⟩ := Store.save_eq_ok_iff.mp hsave
  obtain ⟨place, hplace, -⟩ := Tree.readBytes_eq_ok_iff.mp hread
  obtain ⟨-, -, above, habove, -⟩ := (Tree.locate_eq_ok_iff hsaves.endsIn).mp hplace
  have hsame := Tree.makeDirectories_of_walk habove (hrooted.directoryOf habove)
  obtain rfl : tree = grown := congrArg Prod.snd (hsame.symm.trans hmake)
  exact ⟨hmake, directory, name, hsaves, hafter⟩

/-- What was saved can be saved again, and this changes nothing. -/
theorem saveStore_again {again : Context} (hdata : again.data = c.data) (hrooted : tree.Rooted)
    (hread : tree.readBytes c.data = .ok bytes) (h : c.saveStore tree store = (.ok (), after)) :
    again.saveStore after store = (.ok (), after) := by
  obtain ⟨hmake, directory, name, hsaves, rfl⟩ := savesAt_of_saveStore hrooted hread h
  obtain ⟨-, -, above, habove, -⟩ := (Tree.locate_eq_ok_iff hsaves.endsIn).mp hsaves.target
  have hmade := Tree.makeDirectories_of_keeps (hsaves.keeps store.contents) habove
    (hrooted.directoryOf habove)
  rw [hmake] at hmade
  refine saveStore_eq_ok_iff.mpr ⟨_, hdata ▸ hmade, ?_⟩
  rw [hdata]
  exact Store.save_eq_ok_iff.mpr ⟨directory, name, hsaves.again _, (Store.savedTree_again ..).symm⟩

end

/-! ### Trees stay rooted -/

theorem rooted_discard (h : tree.Rooted) (path : String) : (Store.discard tree path).Rooted := by
  unfold Store.discard
  split
  case h_1 hremove => exact h.removeFile hremove
  case h_2 => exact h

theorem rooted_save (h : tree.Rooted) (store : Store) (path : String) :
    (store.save tree path).2.Rooted := by
  unfold Store.save
  dsimp only
  split
  case h_1 => exact rooted_discard h _
  case h_2 staged hwrite =>
    split
    case h_1 => exact rooted_discard (h.writeBytes hwrite) _
    case h_2 moved hmove => exact (h.writeBytes hwrite).moveFile hmove

theorem rooted_saveStore (h : tree.Rooted) (c : Context) (store : Store) :
    (c.saveStore tree store).2.Rooted := by
  have hmade := h.makeDirectories (Path.above c.data)
  unfold Context.saveStore
  split
  case h_1 hmake => rwa [hmake] at hmade
  case h_2 hmake =>
    rw [hmake] at hmade
    exact rooted_save hmade store c.data

/-- **A command** leaves nothing outside of directories. -/
theorem rooted_run (h : tree.Rooted) (i : Invocation) : (run i tree).2.Rooted := by
  unfold run
  split
  case h_1 => exact h
  case h_2 c hload =>
    split
    case h_1 command =>
      unfold runImport
      split
      case h_1 => exact h
      case h_2 =>
        split
        case h_1 => exact h
        case h_2 => exact rooted_saveStore h c _
    case h_2 repo path =>
      unfold runTag
      split
      case h_1 => exact h
      case h_2 => exact rooted_saveStore h c _
    case h_3 => exact h

end ArchFacts.CommandLine
