import ArchFacts.Proofs.Graph.Buckets
import ArchFacts.Proofs.Store.Indexes
import Mathlib.Algebra.BigOperators.Group.List.Lemmas

/-!
# The summaries of a store agree with its indexes

The summaries go through the facts and look into no index. What they list is what the facts tell, in
the order in which it is told first (`ListsFirst`). The indexes list the facts by the same keys,
whatever has happened to the store, so that a kind, a repository or a file is in a summary exactly
if a look-up finds something under it, and the count of a kind is the number of facts found.
-/

namespace ArchFacts

section FirstSeen

variable {α κ : Type} [DecidableEq κ]

/-- A list of what the members of a sequence tell: everything once, and each before what is told
later for the first time. -/
structure ListsFirst (tell : α → Option κ) (as : List α) (listed : List κ) : Prop where
  nodup : listed.Nodup
  mem_iff : ∀ k, k ∈ listed ↔ ∃ a ∈ as, tell a = some k
  ordered : listed.Pairwise fun k k' => ∃ earlier a later, as = earlier ++ a :: later ∧
    tell a = some k ∧ ∀ x ∈ earlier, tell x ≠ some k'

theorem listsFirst_firstSeen (tell : α → Option κ) (as : List α) :
    ListsFirst tell as (firstSeen (as.filterMap tell)) where
  nodup := nodup_firstSeenAfter [] _
  mem_iff _ := mem_firstSeenAfter.trans ((and_iff_left List.not_mem_nil).trans List.mem_filterMap)
  ordered := pairwise_firstSeenAfter_filterMap tell [] as

/-- Every member is counted under one of the values. -/
theorem addUp_count_firstSeen (as : List κ) :
    addUp ((firstSeen as).map as.count) = as.length := by
  have hperm : (firstSeen as).Perm as.dedup := by
    refine (List.perm_ext_iff_of_nodup (nodup_firstSeenAfter [] as) as.nodup_dedup).mpr fun a => ?_
    rw [List.mem_dedup]
    exact mem_firstSeenAfter.trans (and_iff_left List.not_mem_nil)
  calc addUp ((firstSeen as).map as.count)
      = addUp (as.dedup.map as.count) := (hperm.map as.count).sum_nat
    _ = as.length := List.sum_map_count_dedup_eq_length as

end FirstSeen

namespace Store

variable {s : Store}

theorem map_fst_kindCounts (s : Store) :
    s.kindCounts.map (·.1) = firstSeen (s.facts.filterMap fun f => some f.kind) := by
  have hkinds : (s.facts.filterMap fun f => some f.kind) = s.facts.map (·.kind) :=
    congrFun List.filterMap_eq_map s.facts
  rw [kindCounts, List.map_map, hkinds]
  exact List.map_id _

theorem addUp_kindCounts (s : Store) : addUp (s.kindCounts.map (·.2)) = s.count := by
  have hcount := addUp_count_firstSeen (s.facts.map (·.kind))
  rw [List.length_map] at hcount
  rw [kindCounts, List.map_map]
  exact hcount

/-- The labels of some facts, where they have one. -/
theorem filter_map_label (label : Fact → String) (facts : List Fact) :
    (facts.map label).filter (· ≠ "") = facts.filterMap fun f => label? (label f) := by
  rw [← List.filterMap_eq_filter, List.filterMap_map]
  refine List.filterMap_congr fun f _ => ?_
  by_cases h : label f = "" <;> simp [Option.guard, label?, h]

namespace WellIndexed

/-- The count of a kind is the number of the facts that are found under it. -/
theorem count_kindCounts (h : s.WellIndexed) {c : FactKind × Nat} (hc : c ∈ s.kindCounts) :
    c.2 = (s.ofKind c.1).length := by
  obtain ⟨kind, -, rfl⟩ := List.mem_map.mp hc
  rw [h.ofKind, ← List.countP_eq_length_filter]
  exact List.countP_map

/-- A fact has a label exactly if something is found under the label. -/
theorem labelled_iff {label : Fact → String} {found : String → List Fact}
    (hfound : ∀ key, found key = if key = "" then [] else s.facts.filter (label · = key))
    (key : String) : (∃ f ∈ s.facts, label? (label f) = some key) ↔ found key ≠ [] := by
  simp only [label?_eq_some]
  rw [hfound]
  by_cases hkey : key = ""
  · rw [if_pos hkey]
    constructor
    · rintro ⟨f, -, -, hne⟩
      exact absurd hkey hne
    · intro hnil
      exact absurd rfl hnil
  · rw [if_neg hkey]
    simp [hkey, List.filter_eq_nil_iff]

end WellIndexed

/-- **The summaries agree with the indexes**, whatever has happened to a store since it was empty.
The kinds are listed in the order of their first appearance, each with the number of facts that are
found under it, which adds up to the number of all facts; the repositories and the files are listed
in that order too, and are those under which something is found. -/
theorem summaries_agree_after_run (changes : List Change) :
    let s := empty.run changes
    (ListsFirst (fun f => some f.kind) s.facts (s.kindCounts.map (·.1)) ∧
      (∀ c ∈ s.kindCounts, c.2 = (s.ofKind c.1).length) ∧
      addUp (s.kindCounts.map (·.2)) = s.count) ∧
    (ListsFirst (fun f => label? f.repo) s.facts s.repos ∧
      ∀ repo, repo ∈ s.repos ↔ s.inRepo repo ≠ []) ∧
    (ListsFirst (fun f => label? f.file) s.facts s.files ∧
      ∀ file, file ∈ s.files ↔ s.inFile file ≠ []) := by
  intro s
  have h : s.WellIndexed := WellIndexed.empty.run changes
  have hkinds : ListsFirst (fun f => some f.kind) s.facts (s.kindCounts.map (·.1)) := by
    rw [map_fst_kindCounts]
    exact listsFirst_firstSeen _ _
  have hrepos : ListsFirst (fun f => label? f.repo) s.facts s.repos := by
    rw [repos, filter_map_label]
    exact listsFirst_firstSeen _ _
  have hfiles : ListsFirst (fun f => label? f.file) s.facts s.files := by
    rw [files, filter_map_label]
    exact listsFirst_firstSeen _ _
  exact ⟨⟨hkinds, fun c => h.count_kindCounts, addUp_kindCounts s⟩,
    ⟨hrepos, fun repo => (hrepos.mem_iff repo).trans (WellIndexed.labelled_iff h.inRepo repo)⟩,
    ⟨hfiles, fun file => (hfiles.mem_iff file).trans (WellIndexed.labelled_iff h.inFile file)⟩⟩

end Store

end ArchFacts
