import ArchFacts.Proofs.CommandLine.Files
import ArchFacts.Proofs.Store.Tagging

/-!
# Tagging twice

The command to tag labels the facts in the file of facts, and a second run finds nothing left to
label (`run_tag_again`). This goes through everything that the command does: what was decoded in the
first run is written in the one form that facts are written in, this is decoded into the same facts,
a fact that was labelled is not labelled again, and what is saved a second time is the same file in
the same place.

The second run has to find the same file of facts. So the configuration must not be one of the files
that the first run writes (`KeepsConfig`): neither the file of facts, nor the file beside it in which
facts are staged. Otherwise the first run may destroy it (`tag_destroys_config`).
-/

namespace ArchFacts

namespace CommandLine

open Directory
open Json (Value)

variable {tree after : Tree} {i : Invocation} {c : Context} {repo path : String} {facts : List Fact}
  {report : Value}

/-- The report of a tagging. -/
def tagReport (repo : String) (renamed total : Nat) : Value :=
  .ofPairs [("repo", .string repo), ("renamed", .ofNat renamed), ("total", .ofNat total)]

/-! ### One run -/

/-- The facts after a run. -/
def tagged (repo path : String) (facts : List Fact) : List Fact := facts.map (Store.tag repo path)

theorem writable_tagged (hproper : ∀ f ∈ facts, f.Proper)
    (hwhole : ∀ f ∈ facts, Value.WholeFields f.props) :
    ∀ f ∈ tagged repo path facts, f.Writable := by
  refine List.forall_mem_map.mpr fun f hf => ?_
  have hprops := (Relabelled.tag repo path f).props
  exact ((hproper f hf).of_props hprops).writable (hprops ▸ hwhole f hf)

theorem tagged_tagged (repo path : String) (facts : List Fact) :
    tagged repo path (tagged repo path facts) = tagged repo path facts := by
  rw [tagged, tagged, List.map_map]
  exact List.map_congr_left fun f _ => Store.tag_tag repo path f

/-- What a run does, if it can read the facts. -/
theorem run_tag_of_facts (hcommand : i.command = .tag repo path)
    (hload : Context.load tree i = .ok c) (hfacts : Store.factsIn tree c.data = .ok facts) :
    let saved := c.saveStore tree (Store.empty.pushAll (tagged repo path facts))
    run i tree = (saved.1.map fun _ => tagReport repo
      ((Store.empty.pushAll facts).tagUntagged repo path).2 facts.length, saved.2) := by
  intro saved
  have hopened : (Store.empty.pushAll facts).facts = facts := Store.facts_pushAll .empty facts
  have hlabelled := Store.facts_tagUntagged (Store.empty.pushAll facts) repo path
  rw [hopened] at hlabelled
  have hcount : ((Store.empty.pushAll facts).tagUntagged repo path).1.count = facts.length := by
    rw [Store.count, hlabelled, List.length_map]
  have hsaved : c.saveStore tree ((Store.empty.pushAll facts).tagUntagged repo path).1 = saved :=
    saveStore_congr c tree (hlabelled.trans (Store.facts_pushAll .empty _).symm)
  rw [run, hload]
  dsimp only
  rw [hcommand]
  dsimp only
  rw [runTag, openStore_of_factsIn hfacts]
  dsimp only
  rw [hcount, hsaved]
  rfl

/-- A run where the facts can be saved. -/
theorem run_tag_of_savesAt {directory : Place} {name : String}
    (hcommand : i.command = .tag repo path) (hload : Context.load tree i = .ok c)
    (hfacts : Store.factsIn tree c.data = .ok facts)
    (hmake : tree.makeDirectories (Path.above c.data) = (.ok (), tree))
    (hsaves : Store.SavesAt tree c.data directory name) :
    ∃ renamed, run i tree = (.ok (tagReport repo renamed facts.length),
      Store.savedTree tree directory name (Records.writeBytes Fact.write (tagged repo path facts))) := by
  rw [run_tag_of_facts hcommand hload hfacts, saveStore_of_savesAt hmake hsaves, Store.contents,
    Store.facts_pushAll]
  exact ⟨_, rfl⟩

/-- A run that finds no facts. -/
theorem run_tag_of_missing {fault : Fault} (hcommand : i.command = .tag repo path)
    (hload : Context.load tree i = .ok c) (hmissing : tree.readBytes c.data = .error fault) :
    ∃ e, run i tree = (.error e, tree) := by
  refine ⟨.during "Failed to load facts from" c.data (.access c.data fault), ?_⟩
  rw [run, hload]
  dsimp only
  rw [hcommand]
  dsimp only
  rw [runTag, Context.openStore, Store.openFile, Store.factsIn, hmissing]
  rfl

/-- A run that finds nothing to label and can save the facts where they are. -/
theorem run_tag_of_tagged (hcommand : i.command = .tag repo path)
    (hload : Context.load tree i = .ok c)
    (hfacts : Store.factsIn tree c.data = .ok (tagged repo path facts))
    (hsave : c.saveStore tree (Store.empty.pushAll (tagged repo path facts)) = (.ok (), tree)) :
    run i tree = (.ok (tagReport repo 0 facts.length), tree) := by
  have hagain := Store.tagUntagged_again (Store.facts_pushAll .empty (tagged repo path facts))
  rw [run_tag_of_facts hcommand hload hfacts, tagged_tagged, hsave, hagain, tagged, List.length_map]
  rfl

/-! ### The configuration -/

/-- The configuration, if there is one, is not in the file of facts, nor under its staging name where
it is what names the file of facts. -/
def KeepsConfig (tree : Tree) (i : Invocation) (data : String) : Prop :=
  let config := i.config.getD Config.standardPath
  tree.exists? config = .ok true →
    tree.locate config ≠ tree.locate data ∧
      (i.data = none → tree.locate config ≠ tree.locate (Path.staging data))

/-- After facts were saved, the file of facts is still the same one. -/
theorem load_savedTree {directory : Place} {name : String} (hload : Context.load tree i = .ok c)
    (hconfig : KeepsConfig tree i c.data) (hsaves : Store.SavesAt tree c.data directory name)
    (hthere : tree.get? (directory ++ [name]) ≠ none) (bytes : List UInt8) :
    ∃ again, Context.load (Store.savedTree tree directory name bytes) i = .ok again ∧
      again.data = c.data := by
  have hkeeps := hsaves.keeps bytes
  cases hexists : tree.exists? (i.config.getD Config.standardPath) with
  | error fault =>
    rw [Context.load, Config.loadOrStandard, hexists] at hload
    cases hload
  | ok there =>
    cases there with
    | false =>
      have hnone (p : Place) (hp : tree.get? p = none) :
          (Store.savedTree tree directory name bytes).get? p = none := by
        have hne : p ≠ directory ++ [name] := fun heq => hthere (heq ▸ hp)
        rw [Store.get?_savedTree, if_neg hne]
        split
        · rfl
        · exact hp
      refine ⟨_, load_of_absent (hkeeps.exists?_eq_false hnone hexists), ?_⟩
      rw [← Except.ok.inj ((load_of_absent hexists).symm.trans hload)]
    | true =>
      obtain ⟨hdata, hstaging⟩ := hconfig hexists
      obtain ⟨place, hplace⟩ := Tree.locate_of_exists? hexists
      have hafter := hkeeps.locate hplace
      have htarget : place ≠ directory ++ [name] := fun heq =>
        hdata (hplace.trans (heq ▸ hsaves.target.symm))
      by_cases hstaged : place = directory ++ [name ++ ".tmp"]
      · -- the configuration is gone, and the file of facts is named without it
        obtain ⟨data, hgiven⟩ : ∃ data, i.data = some data := by
          refine Option.ne_none_iff_exists'.mp fun hnone => hstaging hnone ?_
          rw [hplace, hstaged, hsaves.staging]
        have hgone : (Store.savedTree tree directory name bytes).get? place = none := by
          rw [Store.get?_savedTree, if_neg htarget, if_pos hstaged]
        refine ⟨_, load_of_absent (Tree.exists?_of_get?_eq_none hafter hgone), ?_⟩
        rw [data_of_load hload hgiven, hgiven, Option.getD_some]
      · have hsame : (Store.savedTree tree directory name bytes).get? place = tree.get? place := by
          rw [Store.get?_savedTree, if_neg htarget, if_neg hstaged]
        exact ⟨c, (load_congr (Tree.find_congr hplace hafter hsame)).trans hload, rfl⟩

/-! ### A second run -/

/-- **Tagging twice**: the file of facts is decoded into the same facts as before, in the same order,
labelled at most, and those of another repository as they were; a second run finds nothing left to
label and leaves all files as they are. -/
theorem run_tag_again (hcommand : i.command = .tag repo path) (hload : Context.load tree i = .ok c)
    (hfacts : Store.factsIn tree c.data = .ok facts)
    (hwhole : ∀ f ∈ facts, Json.Value.WholeFields f.props)
    (hrun : run i tree = (.ok report, after)) :
    (∃ labelled, Store.factsIn after c.data = .ok labelled ∧
      List.Forall₂ (fun f g => Relabelled [path] f g ∧ (f.repo ≠ "" → f.repo ≠ repo → g = f))
        facts labelled) ∧
    ∃ renamed, report = tagReport repo renamed facts.length ∧
      (tree.Rooted → KeepsConfig tree i c.data →
        run i after = (.ok (tagReport repo 0 facts.length), after)) := by
  obtain ⟨⟨bytes, hread⟩, hproper⟩ := proper_factsIn hfacts
  rw [run_tag_of_facts hcommand hload hfacts] at hrun
  obtain ⟨hok, htree⟩ := Prod.mk.inj hrun
  obtain ⟨⟨⟩, hok, hreport⟩ := map_eq_ok.mp hok
  have hsave : c.saveStore tree (Store.empty.pushAll (tagged repo path facts)) = (.ok (), after) :=
    Prod.ext hok htree
  have hcontents := (saved_of_saveStore hsave).contents
  rw [Store.facts_pushAll] at hcontents
  have hlabelled : Store.factsIn after c.data = .ok (tagged repo path facts) :=
    factsIn_of_writeBytes hcontents (writable_tagged hproper hwhole)
  refine ⟨⟨tagged repo path facts, hlabelled, ?_⟩, _, hreport.symm, fun hrooted hconfig => ?_⟩
  · refine List.forall₂_map_right_iff.mpr (List.forall₂_same.mpr fun f _ => ?_)
    exact ⟨.tag repo path f, Store.tag_of_other⟩
  · obtain ⟨-, directory, name, hsaves, hafter⟩ := savesAt_of_saveStore hrooted hread hsave
    obtain ⟨place, hplace, hfile, -⟩ := Tree.readBytes_eq_ok_iff.mp hread
    obtain rfl : place = directory ++ [name] := Except.ok.inj (hplace.symm.trans hsaves.target)
    have hthere : tree.get? (directory ++ [name]) ≠ none := by rw [hfile]; nofun
    obtain ⟨again, hagain, hdata⟩ := load_savedTree hload hconfig hsaves hthere
      (Store.empty.pushAll (tagged repo path facts)).contents
    rw [← hafter] at hagain
    exact run_tag_of_tagged hcommand hagain (hdata ▸ hlabelled)
      (saveStore_again hdata hrooted hread hsave)

/-- A configuration and the file of facts that it names. -/
def configured : Tree where
  current := []
  entries :=
    [(["conf"], .file (Text.Utf8.encode "data_file: facts\n".toList)),
     (["facts"], .file (Records.writeBytes Fact.write
       [{ Fact.of .symbol "a" with file := "a.rs" }, { Fact.of .route "b" with repo := "other" }]))]

theorem savesAt_configured : Store.SavesAt configured "facts" [] "facts" :=
  .of_isName ⟨by decide, by decide⟩ (by decide) (by decide) nofun nofun

theorem run_tag_again_configured :
    let i : Invocation := ⟨some "conf", none, .tag "home" "lib/"⟩
    ∃ report after renamed, run i configured = (.ok report, after) ∧
      report = tagReport "home" renamed 2 ∧ run i after = (.ok (tagReport "home" 0 2), after) := by
  intro i
  have hconfig : Config.read "data_file: facts\n".toList =
      some { Config.standard with dataFile := "facts" } := by decide +kernel
  have hbytes : configured.readBytes "conf" =
      .ok (Text.Utf8.encode "data_file: facts\n".toList) := rfl
  have hload : Context.load configured i =
      .ok ⟨{ Config.standard with dataFile := "facts" }, "facts"⟩ :=
    (load_of_text hbytes).trans (by rw [hconfig]; rfl)
  have hfacts : Store.factsIn configured "facts" = .ok
      [{ Fact.of .symbol "a" with file := "a.rs" }, { Fact.of .route "b" with repo := "other" }] := by
    refine factsIn_of_writeBytes rfl (List.forall_mem_cons.mpr ⟨?_, List.forall_mem_singleton.mpr ?_⟩)
    · exact ⟨trivial, ⟨List.Pairwise.nil, trivial⟩, by decide⟩
    · exact ⟨trivial, ⟨List.Pairwise.nil, trivial⟩, by decide⟩
  obtain ⟨renamed, hrun⟩ := run_tag_of_savesAt (i := i) rfl hload hfacts rfl savesAt_configured
  have hwhole : ∀ f ∈ [{ Fact.of .symbol "a" with file := "a.rs" },
      { Fact.of .route "b" with repo := "other" }], Value.WholeFields f.props :=
    List.forall_mem_cons.mpr ⟨trivial, List.forall_mem_singleton.mpr trivial⟩
  have hkeeps : KeepsConfig configured i "facts" := fun _ => ⟨by decide, fun _ => by decide⟩
  obtain ⟨-, renamed', hreport, hagain⟩ := run_tag_again rfl hload hfacts hwhole hrun
  exact ⟨_, _, renamed', hrun, hreport, hagain (.of_flat rfl (by decide)) hkeeps⟩

/-! ### Configurations that a run destroys -/

/-- A tree in which a command succeeds, on facts without doubles in a file `f`, and then fails. -/
structure FailsAgain (i : Invocation) (tree : Tree) : Prop where
  rooted : tree.Rooted
  whole : ∃ facts, Store.factsIn tree "f" = .ok facts ∧ ∀ f ∈ facts, Value.WholeFields f.props
  runs : ∃ report after e, run i tree = (.ok report, after) ∧ run i after = (.error e, after)

/-- A fact without a label. -/
def unlabelled : Fact := Fact.of .symbol "a"

theorem writable_unlabelled : ∀ f ∈ [unlabelled], f.Writable :=
  List.forall_mem_singleton.mpr ⟨trivial, ⟨List.Pairwise.nil, trivial⟩, by decide⟩

/-- A configuration that stands where facts are staged. -/
def stagedConfig : Tree where
  current := []
  entries :=
    [(["f"], .file (Records.writeBytes Fact.write [unlabelled])),
     (["f.tmp"], .file (Text.Utf8.encode "data_file: f\n".toList))]

theorem savesAt_stagedConfig : Store.SavesAt stagedConfig "f" [] "f" :=
  .of_isName ⟨by decide, by decide⟩ (by decide) (by decide) nofun nofun

/-- The first run stages the facts over the configuration, and the second does not find them. -/
theorem failsAgain_stagedConfig :
    FailsAgain ⟨some "f.tmp", none, .tag "r" ""⟩ stagedConfig := by
  let i : Invocation := ⟨some "f.tmp", none, .tag "r" ""⟩
  have hconfig : Config.read "data_file: f\n".toList =
      some { Config.standard with dataFile := "f" } := by decide +kernel
  have hbytes : stagedConfig.readBytes "f.tmp" = .ok (Text.Utf8.encode "data_file: f\n".toList) := rfl
  have hload : Context.load stagedConfig i = .ok ⟨{ Config.standard with dataFile := "f" }, "f"⟩ :=
    (load_of_text hbytes).trans (by rw [hconfig]; rfl)
  have hfacts : Store.factsIn stagedConfig "f" = .ok [unlabelled] :=
    factsIn_of_writeBytes rfl writable_unlabelled
  obtain ⟨renamed, hrun⟩ := run_tag_of_savesAt (i := i) rfl hload hfacts rfl savesAt_stagedConfig
  have hgone (bytes : List UInt8) :
      (Store.savedTree stagedConfig [] "f" bytes).exists? "f.tmp" = .ok false := rfl
  have hmissing (bytes : List UInt8) :
      (Store.savedTree stagedConfig [] "f" bytes).readBytes Config.standard.dataFile =
        .error .missing := rfl
  obtain ⟨e, he⟩ := run_tag_of_missing rfl (load_of_absent (i := i) (hgone _)) (hmissing _)
  exact ⟨.of_flat rfl (by decide), ⟨_, hfacts, List.forall_mem_singleton.mpr trivial⟩, _, _, e, hrun,
    he⟩

/-- A configuration that is also the file of facts. -/
def factsConfig : Tree where
  current := []
  entries := [(["f"], .file (Records.writeBytes Fact.write [unlabelled]))]

theorem savesAt_factsConfig : Store.SavesAt factsConfig "f" [] "f" :=
  .of_isName ⟨by decide, by decide⟩ (by decide) (by decide) nofun nofun

/-- The first run puts a character into the configuration that cannot stand there. -/
theorem failsAgain_factsConfig :
    FailsAgain ⟨some "f", some "f", .tag "\x7f" ""⟩ factsConfig := by
  let i : Invocation := ⟨some "f", some "f", .tag "\x7f" ""⟩
  let labelled : Fact := { unlabelled with repo := "\x7f" }
  have hconfig : Config.read (Records.write Fact.write [unlabelled]) = some .standard := by
    decide +kernel
  have hbroken : Config.read (Records.write Fact.write [labelled]) = none := by decide +kernel
  have hbytes : factsConfig.readBytes "f" = .ok (Records.writeBytes Fact.write [unlabelled]) := rfl
  have hload : Context.load factsConfig i = .ok ⟨.standard, "f"⟩ :=
    (load_of_text hbytes).trans (by rw [hconfig]; rfl)
  have hfacts : Store.factsIn factsConfig "f" = .ok [unlabelled] :=
    factsIn_of_writeBytes hbytes writable_unlabelled
  obtain ⟨renamed, hrun⟩ := run_tag_of_savesAt (i := i) rfl hload hfacts rfl savesAt_factsConfig
  have hlabelled : tagged "\x7f" "" [unlabelled] = [labelled] := rfl
  rw [hlabelled] at hrun
  have hagain := load_of_text (i := i)
    (savesAt_factsConfig.readBytes (Records.writeBytes Fact.write [labelled]))
  rw [hbroken] at hagain
  exact ⟨.of_flat rfl (by decide), ⟨_, hfacts, List.forall_mem_singleton.mpr trivial⟩, _, _, _, hrun,
    run_of_not_loaded hagain⟩

/-- A second run may fail where the first one destroys the configuration. -/
theorem tag_destroys_config :
    FailsAgain ⟨some "f.tmp", none, .tag "r" ""⟩ stagedConfig ∧
      FailsAgain ⟨some "f", some "f", .tag "\x7f" ""⟩ factsConfig :=
  ⟨failsAgain_stagedConfig, failsAgain_factsConfig⟩

end CommandLine

end ArchFacts
