import ArchFacts.Proofs.Cycle.Imports
import ArchFacts.Proofs.Cycle.Partition
import Mathlib.Data.List.Flatten
import Mathlib.Data.List.Pairwise

/-!
# The findings are the import cycles

The findings are the components of the import graph with more than one node, told by the names of
their nodes. Two nodes share a component exactly if each reaches the other, and no two nodes have
the same name, so two modules share a finding exactly if chains of imports lead from each to the
other (`detect_cycles`). An import of itself joins a module to no other one.
-/

namespace ArchFacts.Cycle

open DirectedGraph

variable {facts : List Fact} {internal : Classifier} {a b : String}

/-- The findings are the components with more than one node, told by names. -/
theorem modules_detect (facts : List Fact) (internal : Classifier) :
    (detect facts internal).map (·.modules) =
      ((componentNodes (ImportGraph.build facts internal).toDirected).filter (1 < ·.length)).map
        (·.map (ImportGraph.build facts internal).toDirected.label) := by
  have hmodules (g : ImportGraph) (components : List (List String)) :
      (components.map g.finding).map (·.modules) = components :=
    List.map_map.trans (List.map_id _)
  rw [detect, ImportGraph.findings, hmodules, components, List.filter_map]
  refine congrArg (List.map _) (List.filter_congr fun c _ => ?_)
  rw [Function.comp_apply, List.length_map]

theorem component_of_finding {finding : Finding} (h : finding ∈ detect facts internal) :
    ∃ c ∈ componentNodes (ImportGraph.build facts internal).toDirected, 1 < c.length ∧
      finding.modules = c.map (ImportGraph.build facts internal).toDirected.label := by
  have hmem : finding.modules ∈ (detect facts internal).map (·.modules) := List.mem_map_of_mem h
  rw [modules_detect] at hmem
  obtain ⟨c, hc, hmodules⟩ := List.mem_map.mp hmem
  obtain ⟨hc, hlength⟩ := List.mem_filter.mp hc
  exact ⟨c, hc, of_decide_eq_true hlength, hmodules.symm⟩

theorem finding_of_component {c : List (ImportGraph.build facts internal).toDirected.Node}
    (hc : c ∈ componentNodes (ImportGraph.build facts internal).toDirected)
    (hlength : 1 < c.length) :
    ∃ finding ∈ detect facts internal,
      finding.modules = c.map (ImportGraph.build facts internal).toDirected.label := by
  refine List.mem_map.mp (?_ : _ ∈ (detect facts internal).map (·.modules))
  rw [modules_detect]
  exact List.mem_map_of_mem (List.mem_filter.mpr ⟨hc, decide_eq_true hlength⟩)

/-- Two nodes share a component exactly if chains of imports lead from each to the other. -/
theorem same_component_iff_chains
    (v w : (ImportGraph.build facts internal).toDirected.Node) :
    (∃ c ∈ componentNodes (ImportGraph.build facts internal).toDirected, v ∈ c ∧ w ∈ c) ↔
      ImportsChain facts internal ((ImportGraph.build facts internal).toDirected.label v)
          ((ImportGraph.build facts internal).toDirected.label w) ∧
        ImportsChain facts internal ((ImportGraph.build facts internal).toDirected.label w)
          ((ImportGraph.build facts internal).toDirected.label v) := by
  rw [← ImportGraph.reaches_iff, ← ImportGraph.reaches_iff]
  exact (settled_componentNodes _).same_component_iff (nodup_flatten_componentNodes _)
    mem_flatten_componentNodes v w

/-- Two modules share a finding exactly if chains of imports lead from each to the other. -/
theorem same_finding_iff (hne : a ≠ b) :
    (∃ finding ∈ detect facts internal, a ∈ finding.modules ∧ b ∈ finding.modules) ↔
      ImportsChain facts internal a b ∧ ImportsChain facts internal b a := by
  constructor
  · rintro ⟨finding, hfinding, ha, hb⟩
    obtain ⟨c, hc, -, hmodules⟩ := component_of_finding hfinding
    rw [hmodules] at ha hb
    obtain ⟨v, hv, rfl⟩ := List.mem_map.mp ha
    obtain ⟨w, hw, rfl⟩ := List.mem_map.mp hb
    exact (same_component_iff_chains v w).mp ⟨c, hc, hv, hw⟩
  · intro h
    obtain ⟨ha, hb⟩ := h.1.isModuleName hne
    obtain ⟨v, rfl⟩ := ImportGraph.exists_node internal ha
    obtain ⟨w, rfl⟩ := ImportGraph.exists_node internal hb
    obtain ⟨c, hc, hv, hw⟩ := (same_component_iff_chains v w).mpr h
    have hlength : 1 < c.length := by
      match c, hv, hw with
      | [u], hv, hw =>
        obtain rfl := List.mem_singleton.mp hv
        obtain rfl := List.mem_singleton.mp hw
        exact absurd rfl hne
      | _ :: _ :: _, _, _ => exact Nat.succ_lt_succ (Nat.succ_pos _)
    obtain ⟨finding, hfinding, hmodules⟩ := finding_of_component hc hlength
    refine ⟨finding, hfinding, ?_⟩
    rw [hmodules]
    exact ⟨List.mem_map_of_mem hv, List.mem_map_of_mem hw⟩

/-- No module is told twice. -/
theorem nodup_modules_detect (facts : List Fact) (internal : Classifier) :
    ((detect facts internal).flatMap (·.modules)).Nodup := by
  rw [List.flatMap_def, modules_detect, ← List.map_flatten]
  exact ((nodup_flatten_componentNodes _).sublist List.filter_sublist.flatten).map
    (ImportGraph.label_injective facts internal)

/-- Two findings have no member in common. -/
theorem disjoint_modules_detect (facts : List Fact) (internal : Classifier) :
    (detect facts internal).Pairwise fun finding other =>
      finding.modules.Disjoint other.modules :=
  (List.nodup_flatMap.mp (nodup_modules_detect facts internal)).2

/-- A module is in one finding at most. -/
theorem finding_unique {finding other : Finding} (h : finding ∈ detect facts internal)
    (hother : other ∈ detect facts internal) (ha : a ∈ finding.modules)
    (ha' : a ∈ other.modules) : finding = other := by
  have hsymm : Std.Symm fun f f' : Finding => f.modules.Disjoint f'.modules :=
    ⟨fun _ _ => List.disjoint_symm⟩
  by_contra hne
  exact (disjoint_modules_detect facts internal).forall h hother hne ha ha'

/-- The finding of a module has the modules with chains of imports from there and back. -/
theorem mem_modules_iff {finding : Finding} (h : finding ∈ detect facts internal)
    (ha : a ∈ finding.modules) :
    b ∈ finding.modules ↔ ImportsChain facts internal a b ∧ ImportsChain facts internal b a := by
  by_cases hne : a = b
  · obtain rfl := hne
    exact iff_of_true ha ⟨.refl, .refl⟩
  · rw [← same_finding_iff hne]
    constructor
    · intro hb
      exact ⟨finding, h, ha, hb⟩
    · rintro ⟨other, hother, ha', hb⟩
      rwa [finding_unique h hother ha ha']

/-- A finding has two members at least. -/
theorem two_le_length_modules {finding : Finding} (h : finding ∈ detect facts internal) :
    2 ≤ finding.modules.length := by
  obtain ⟨c, -, hlength, hmodules⟩ := component_of_finding h
  rw [hmodules, List.length_map]
  exact hlength

theorem nodup_modules {finding : Finding} (h : finding ∈ detect facts internal) :
    finding.modules.Nodup :=
  (List.nodup_flatMap.mp (nodup_modules_detect facts internal)).1 finding h

/-- A member of a finding has company in it. -/
theorem exists_other_member {finding : Finding} (h : finding ∈ detect facts internal)
    (ha : a ∈ finding.modules) : ∃ b ∈ finding.modules, b ≠ a := by
  have htwo := two_le_length_modules h
  have hmore : finding.modules ≠ [a] := by
    intro hone
    rw [hone] at htwo
    exact Nat.not_succ_le_self 1 htwo
  rcases ((nodup_modules h).ne_singleton_iff a).mp hmore with hnil | hother
  · rw [hnil] at ha
    cases ha
  · exact hother

/-- **The findings are the import cycles**: two modules share a finding exactly if chains of imports
lead from each to the other, no module is told twice, a finding has two members at least, and a
module on no cycle but an import of itself is in none. -/
theorem detect_cycles (facts : List Fact) (internal : Classifier) :
    (∀ a b, a ≠ b →
      ((∃ finding ∈ detect facts internal, a ∈ finding.modules ∧ b ∈ finding.modules) ↔
        ImportsChain facts internal a b ∧ ImportsChain facts internal b a)) ∧
    ((detect facts internal).flatMap (·.modules)).Nodup ∧
    (∀ finding ∈ detect facts internal, 2 ≤ finding.modules.length) ∧
    ∀ a, (∀ b, ImportsChain facts internal a b → ImportsChain facts internal b a → b = a) →
      ∀ finding ∈ detect facts internal, a ∉ finding.modules := by
  refine ⟨fun _ _ => same_finding_iff, nodup_modules_detect facts internal,
    fun _ => two_le_length_modules, fun a honly finding hfinding ha => ?_⟩
  obtain ⟨b, hb, hne⟩ := exists_other_member hfinding ha
  obtain ⟨hba, hab⟩ := (same_finding_iff hne).mp ⟨finding, hfinding, hb, ha⟩
  exact hne (honly b hab hba)

/-- Two modules of which one declares that it imports the other one, and a file in that one imports
a path relative to its directory. The first imports itself as well. -/
def loop : List Fact :=
  [((Fact.of .codeModule "src/api").withRelation .dependsOn "src/store").withRelation
      .imports "src/api",
    Fact.of .codeModule "src/store",
    ((Fact.of .dependency "db").withFile "src/store/db.go" 3).withRelation .imports "./../api/"]

theorem detect_cycles_loop :
    "src/api" ≠ "src/store" ∧
      ∃ finding ∈ detect loop looksInternal,
        "src/api" ∈ finding.modules ∧ "src/store" ∈ finding.modules := by
  have hmodules : IsModuleName loop "src/api" ∧ IsModuleName loop "src/store" :=
    ⟨⟨by decide, _, .head _, rfl, rfl⟩, ⟨by decide, _, .tail _ (.head _), rfl, rfl⟩⟩
  have hforward : Imports loop looksInternal "src/api" "src/store" := by
    refine ⟨hmodules.1, hmodules.2, _, .head _, Or.inl ?_⟩
    exact ⟨rfl, rfl, _, .head _, Or.inr rfl, rfl⟩
  have hback : Imports loop looksInternal "src/store" "src/api" := by
    refine ⟨hmodules.2, hmodules.1, _, .tail _ (.tail _ (.head _)), Or.inr ?_⟩
    exact ⟨rfl, by decide, _, .head _, rfl, by decide, by decide⟩
  have hne : "src/api" ≠ "src/store" := by decide
  exact ⟨hne, ((detect_cycles loop looksInternal).1 _ _ hne).mpr ⟨.single hforward, .single hback⟩⟩

end ArchFacts.Cycle
