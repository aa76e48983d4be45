import ArchFacts.Proofs.Store.GraphSnapshot

/-!
# Labelling the facts that have no label

Tagging labels the facts that have no label, or the one that is given, and puts a path in front of
their files. A file that begins with the path is taken to have it already, so a fact that was tagged
is left alone from then on, even though it still belongs to the repository
(`not_pending_tag`). That keeps a path from coming in front of a file twice.

Nothing is done at all, not even to the indexes, if no fact is pending. A fact is pending exactly if
tagging would change it (`tag_eq_self_iff`), so what is left out then is a pass that changes
nothing.
-/

namespace ArchFacts

/-- What tagging makes of a fact: one of another repository is left as it is, any other is labelled,
and its file gets the path in front unless there is no file or it begins with the path. -/
structure Tagged (repo path : String) (f g : Fact) : Prop where
  other : f.repo ≠ "" → f.repo ≠ repo → g = f
  moved : f.repo = "" ∨ f.repo = repo → f.file ≠ "" → ¬path.toList <+: f.file.toList →
    g = { f with repo, file := path ++ f.file }
  stays : f.repo = "" ∨ f.repo = repo → f.file = "" ∨ path.toList <+: f.file.toList →
    g = { f with repo }

namespace Store

variable {s : Store} {repo path file : String} {f g : Fact} {facts : List Fact}

/-! ### One fact -/

theorem belongs_iff : belongs repo f = true ↔ f.repo = "" ∨ f.repo = repo := by
  simp [belongs]

/-- The empty path is in front of every file. -/
theorem needsPath_iff :
    needsPath path file = true ↔ file ≠ "" ∧ ¬path.toList <+: file.toList := by
  have hempty : ¬path.toList <+: file.toList → path ≠ "" := by
    rintro hfront rfl
    exact hfront List.nil_prefix
  simp only [needsPath, Bool.and_eq_true, bne_iff_ne, Bool.not_eq_true', ← Bool.not_eq_true,
    Text.startsWith_iff]
  exact ⟨fun h => ⟨h.1.2, h.2⟩, fun h => ⟨⟨hempty h.2, h.1⟩, h.2⟩⟩

theorem needsPath_append (path file : String) : needsPath path (path ++ file) = false := by
  have hstarts : Text.startsWith (path ++ file) path = true := by
    rw [Text.startsWith_iff, String.toList_append]
    exact List.prefix_append _ _
  rw [needsPath, hstarts, Bool.not_true, Bool.and_false]

/-- A file that gets a path in front becomes another one. -/
theorem append_ne_of_needsPath (h : needsPath path file = true) : path ++ file ≠ file := by
  intro hsame
  rw [← hsame, needsPath_append] at h
  cases h

theorem tag_of_belongs (h : belongs repo f = true) :
    tag repo path f =
      { f with repo, file := if needsPath path f.file then path ++ f.file else f.file } :=
  if_pos h

/-- Facts of another repository are left as they are. -/
theorem tag_of_other (hlabelled : f.repo ≠ "") (hother : f.repo ≠ repo) : tag repo path f = f :=
  if_neg (by simp [belongs, hlabelled, hother])

theorem tagged_tag (repo path : String) (f : Fact) : Tagged repo path f (tag repo path f) where
  other := tag_of_other
  moved hrepo hfile hfront := by
    rw [tag_of_belongs (belongs_iff.mpr hrepo), if_pos (needsPath_iff.mpr ⟨hfile, hfront⟩)]
  stays hrepo hfile := by
    have hneeds : ¬needsPath path f.file = true := fun h =>
      (needsPath_iff.mp h).2 (hfile.resolve_left (needsPath_iff.mp h).1)
    rw [tag_of_belongs (belongs_iff.mpr hrepo), if_neg hneeds]

/-- There is only one thing that tagging can make of a fact. -/
theorem tagged_iff : Tagged repo path f g ↔ g = tag repo path f := by
  constructor
  · intro h
    have htag := tagged_tag repo path f
    by_cases hrepo : f.repo = "" ∨ f.repo = repo
    · by_cases hfile : f.file = "" ∨ path.toList <+: f.file.toList
      · exact (h.stays hrepo hfile).trans (htag.stays hrepo hfile).symm
      · rw [not_or] at hfile
        exact (h.moved hrepo hfile.1 hfile.2).trans (htag.moved hrepo hfile.1 hfile.2).symm
    · rw [not_or] at hrepo
      exact (h.other hrepo.1 hrepo.2).trans (htag.other hrepo.1 hrepo.2).symm
  · rintro rfl
    exact tagged_tag repo path f

/-- **The facts that are pending** are those that tagging would change. -/
theorem tag_eq_self_iff : tag repo path f = f ↔ pending repo path f = false := by
  refine ⟨fun hsame => ?_, tag_of_not_pending⟩
  rw [pending]
  by_cases hrepo : belongs repo f = true
  · rw [tag_of_belongs hrepo] at hsame
    have hlabel : repo = f.repo := congrArg Fact.repo hsame
    have hfile : (if needsPath path f.file then path ++ f.file else f.file) = f.file :=
      congrArg Fact.file hsame
    have hneeds : ¬needsPath path f.file = true := fun h =>
      append_ne_of_needsPath h ((if_pos h).symm.trans hfile)
    rw [hrepo, hlabel, bne_self_eq_false, eq_false_of_ne_true hneeds]
    rfl
  · rw [eq_false_of_ne_true hrepo, Bool.false_and]

theorem renames_iff : renames repo path f = true ↔ f.file ≠ (tag repo path f).file := by
  rw [renames, Bool.and_eq_true]
  by_cases hrepo : belongs repo f = true
  · rw [tag_of_belongs hrepo]
    by_cases hneeds : needsPath path f.file = true
    · simp [hrepo, hneeds, (append_ne_of_needsPath hneeds).symm]
    · simp [hneeds]
  · have hsame : tag repo path f = f := if_neg hrepo
    simp [hrepo, hsame]

/-- A fact that was tagged needs no label. -/
theorem not_pending_tag (repo path : String) (f : Fact) :
    pending repo path (tag repo path f) = false := by
  unfold tag
  by_cases hrepo : belongs repo f
  · rw [if_pos hrepo, pending, Bool.and_eq_false_iff]
    refine Or.inr (Bool.or_eq_false_iff.mpr ⟨bne_self_eq_false _, ?_⟩)
    dsimp only
    split
    case isTrue => exact needsPath_append path f.file
    case isFalse hneeds => exact eq_false_of_ne_true hneeds
  · rw [if_neg hrepo, pending, eq_false_of_ne_true hrepo, Bool.false_and]

theorem tag_tag (repo path : String) (f : Fact) :
    tag repo path (tag repo path f) = tag repo path f :=
  tag_of_not_pending (not_pending_tag repo path f)

/-! ### All facts -/

/-- The number of files that changed is told, also if nothing is done. -/
theorem number_tagUntagged (s : Store) (repo path : String) :
    (s.tagUntagged repo path).2 = s.facts.countP (renames repo path) := by
  unfold tagUntagged
  by_cases h : s.facts.any (pending repo path)
  · rw [if_pos h]
  · rw [if_neg h]
    refine (List.countP_eq_zero.mpr fun f hf hrenames => h (List.any_eq_true.mpr ⟨f, hf, ?_⟩)).symm
    rw [renames, Bool.and_eq_true] at hrenames
    rw [pending, hrenames.1, hrenames.2, Bool.or_true]
    rfl

theorem tagUntagged_eq_self_iff :
    s.tagUntagged repo path = (s, 0) ↔ ∀ f ∈ s.facts, tag repo path f = f := by
  constructor
  · intro hself f hf
    have hfacts := facts_tagUntagged s repo path
    rw [hself] at hfacts
    exact List.map_inj_left.mp (hfacts.symm.trans (List.map_id _).symm) f hf
  · intro hsame
    refine if_neg fun hany => ?_
    obtain ⟨f, hf, hpending⟩ := List.any_eq_true.mp hany
    rw [tag_eq_self_iff.mp (hsame f hf)] at hpending
    cases hpending

/-- To label facts again changes none of them. -/
theorem tagUntagged_again (h : s.facts = facts.map (tag repo path)) :
    s.tagUntagged repo path = (s, 0) := by
  rw [tagUntagged_eq_self_iff, h]
  exact List.forall_mem_map.mpr fun f _ => tag_tag repo path f

/-- What tagging does to a store and tells. -/
structure TagsUntagged (s : Store) (repo path : String) (result : Store × Nat) : Prop where
  facts : List.Forall₂ (Tagged repo path) s.facts result.1.facts
  number : result.2 = (s.facts.zip result.1.facts).countP fun p => p.1.file ≠ p.2.file
  /-- The store is returned untouched exactly if no fact would be another one. -/
  untouched : result = (s, 0) ↔ ∀ f ∈ s.facts, Tagged repo path f f
  indexed : result.1.WellIndexed
  graph : result.1.graph = s.graph
  /-- A second time nothing is touched. -/
  again : result.1.tagUntagged repo path = (result.1, 0)
  /-- When other facts have come in, those that were there are still left alone. -/
  later : ∀ batches : List (List Fact),
    ((result.1.run (batches.map .add)).tagUntagged repo path).1.facts.take s.count =
      result.1.facts

theorem facts_run_add (s : Store) (batches : List (List Fact)) :
    (s.run (batches.map .add)).facts = s.facts ++ batches.flatten := by
  induction batches generalizing s with
  | nil => exact (List.append_nil _).symm
  | cons facts rest ih =>
    change ((s.pushAll facts).run (rest.map .add)).facts = _
    rw [ih, facts_pushAll, List.flatten_cons, List.append_assoc]

/-- **Tagging** changes the facts that have no label, or the one that is given, and tells how many
files it changed; it leaves the whole store as it is exactly if it would change no fact; and facts
that were tagged are not changed when the same is done again, whatever was added in between. -/
theorem tagUntagged_settles (s : Store) (repo path : String) (h : s.WellIndexed) :
    s.TagsUntagged repo path (s.tagUntagged repo path) := by
  have hfacts := facts_tagUntagged s repo path
  refine
    { facts := ?_, number := ?_, untouched := ?_, indexed := h.tagUntagged repo path
      graph := graph_tagUntagged s repo path, again := tagUntagged_again hfacts
      later := fun batches => ?_ }
  · rw [hfacts]
    exact List.forall₂_map_right_iff.mpr (List.forall₂_same.mpr fun f _ => tagged_tag repo path f)
  · have hzip : s.facts.zip (s.facts.map (tag repo path)) =
        s.facts.map fun f => (f, tag repo path f) := by
      rw [← List.map_prod_left_eq_zip]
    rw [number_tagUntagged, hfacts, hzip, List.countP_map]
    refine List.countP_congr fun f _ => ?_
    rw [renames_iff]
    exact decide_eq_true_iff.symm
  · rw [tagUntagged_eq_self_iff]
    exact forall₂_congr fun f _ => eq_comm.trans tagged_iff.symm
  · have hsame : s.facts.map (tag repo path ∘ tag repo path) = s.facts.map (tag repo path) :=
      List.map_congr_left fun f _ => tag_tag repo path f
    rw [facts_tagUntagged, facts_run_add, hfacts, List.map_append, List.map_map, hsame]
    exact List.take_left' (List.length_map _)

/-- Facts of all sorts: without a label, with and without a file, with a label already, with the
path in front already, and of another repository. -/
def assorted : List Fact :=
  [(Fact.of .symbol "a").withFile "x.rs" 1, Fact.of .symbol "b",
    ((Fact.of .symbol "c").withFile "y.rs" 1).withRepo "one",
    (Fact.of .symbol "d").withFile "one/z.rs" 1,
    ((Fact.of .symbol "e").withFile "x.rs" 1).withRepo "two"]

theorem tagUntagged_settles_assorted :
    let s := empty.run [.add assorted]
    s.WellIndexed ∧
      (s.tagUntagged "one" "one/").1.facts.map (·.file) =
        ["one/x.rs", "", "one/y.rs", "one/z.rs", "x.rs"] ∧
      (s.tagUntagged "one" "one/").2 = 2 ∧
      s.TagsUntagged "one" "one/" (s.tagUntagged "one" "one/") := by
  intro s
  have h : s.WellIndexed := WellIndexed.empty.run _
  exact ⟨h, by decide, by decide, tagUntagged_settles s "one" "one/" h⟩

end Store

end ArchFacts
