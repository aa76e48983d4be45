import ArchFacts.Proofs.Cycle.Findings
import ArchFacts.Proofs.Graph.Agreement
import ArchFacts.Proofs.Graph.Bridges
import ArchFacts.Proofs.Graph.Truncation
import Mathlib.Data.Multiset.Defs

/-!
# The order of the facts

The facts come in the order in which they were recorded, and where there is a choice the first one
is taken: of two facts with one name the first tells what the name is, of two shortest paths the
first is answered, and a traversal drops the nodes that it finds last. An answer that involves no
such choice does not depend on the order. These are the counts, how far one name is from another,
whether more names are within reach than may be reported, and which modules are on a cycle together
(`answers_perm`).

The facts in another order have the same edges in another order, so the same hops and the same
distances, and the searches answer with those. Imports are told by the facts themselves, so the
chains of imports, which decide what shares a finding, are the same as well.
-/

namespace ArchFacts

variable {facts facts' : List Fact}

theorem firstSeen_perm {α : Type} [DecidableEq α] {as as' : List α} (h : as.Perm as') :
    (firstSeen as).Perm (firstSeen as') := by
  refine (List.perm_ext_iff_of_nodup (nodup_firstSeenAfter _ _) (nodup_firstSeenAfter _ _)).mpr
    fun a => ?_
  rw [mem_firstSeenAfter, mem_firstSeenAfter, h.mem_iff]

/-- The names that a traversal reports, each with its depth. -/
def Traversal.depths (t : Traversal) : List (String × Nat) := t.nodes.map fun n => (n.name, n.depth)

theorem Traversal.mem_depths {t : Traversal} {name : String} {depth : Nat} :
    (name, depth) ∈ t.depths ↔ t.Reports name depth := by
  unfold depths Reports
  rw [List.mem_map]
  simp only [Prod.mk.injEq]

namespace Graph

variable {direction : Direction} {kinds : List RelationKind} {a b start : String} {n : Nat}
  {o : TraversalOptions}

/-! ### Distances -/

theorem mem_adjacent_perm (h : facts.Perm facts') {e : Edge} :
    e ∈ (build facts).adjacent direction a ↔ e ∈ (build facts').adjacent direction a := by
  have hedges : e ∈ (build facts).edges ↔ e ∈ (build facts').edges := (edgesOf_perm h).mem_iff
  cases direction with
  | forward => exact mem_outgoing.trans ((and_congr_left' hedges).trans mem_outgoing.symm)
  | reverse => exact mem_incoming.trans ((and_congr_left' hedges).trans mem_incoming.symm)

theorem hop_perm (h : facts.Perm facts') :
    (build facts).Hop direction kinds a b ↔ (build facts').Hop direction kinds a b := by
  unfold Hop
  simp only [mem_adjacent_perm h]

theorem Hops.mono {g g' : Graph}
    (hle : ∀ a b, g.Hop direction kinds a b → g'.Hop direction kinds a b)
    (walk : g.Hops direction kinds n a b) : g'.Hops direction kinds n a b := by
  induction walk with
  | none => exact .none _
  | snoc _ hop ih => exact .snoc ih (hle _ _ hop)

theorem hops_perm (h : facts.Perm facts') :
    (build facts).Hops direction kinds n a b ↔ (build facts').Hops direction kinds n a b :=
  ⟨.mono fun _ _ => (hop_perm h).mp, .mono fun _ _ => (hop_perm h).mpr⟩

theorem within_perm (h : facts.Perm facts') :
    (build facts).Within direction kinds n a b ↔ (build facts').Within direction kinds n a b := by
  unfold Within
  simp only [hops_perm h]

theorem distance_perm (h : facts.Perm facts') :
    (build facts).Distance direction kinds a b n ↔
      (build facts').Distance direction kinds a b n := by
  unfold Distance
  simp only [hops_perm h]

/-! ### Counts -/

theorem nodeCount_perm (h : facts.Perm facts') :
    (build facts).nodeCount = (build facts').nodeCount :=
  (firstSeen_perm ((h.map _).filter _)).length_eq

theorem edgeCount_perm (h : facts.Perm facts') :
    (build facts).edgeCount = (build facts').edgeCount :=
  (edgesOf_perm h).length_eq

theorem bridgeCount_perm (h : facts.Perm facts') :
    (build facts).bridgeCount = (build facts').bridgeCount :=
  (edgesOf_perm h).countP_eq _

/-! ### Searches -/

theorem edges_of_not_found {g : Graph} {maxDepth : Nat}
    (h : (g.findPath a b kinds maxDepth).found = false) :
    (g.findPath a b kinds maxDepth).edges = [] := by
  by_cases hsame : a = b
  · rw [findPath, if_pos hsame]
  · cases htrail : g.trail? a b kinds maxDepth with
    | none => rw [findPath_of_no_trail hsame htrail]
    | some t =>
      rw [findPath_of_trail hsame htrail] at h
      cases h

theorem findPath_perm (h : facts.Perm facts') (a b : String) (kinds : List RelationKind)
    (maxDepth : Nat) :
    ((build facts).findPath a b kinds maxDepth).found =
        ((build facts').findPath a b kinds maxDepth).found ∧
      ((build facts).findPath a b kinds maxDepth).edges.length =
        ((build facts').findPath a b kinds maxDepth).edges.length := by
  have hiff (d : Nat) :
      ((build facts).findPath a b kinds maxDepth).found = true ∧
          ((build facts).findPath a b kinds maxDepth).edges.length = d ↔
        ((build facts').findPath a b kinds maxDepth).found = true ∧
          ((build facts').findPath a b kinds maxDepth).edges.length = d := by
    rw [findPath_found_iff, findPath_found_iff, distance_perm h]
  cases hfound : ((build facts).findPath a b kinds maxDepth).found with
  | true =>
    obtain ⟨hfound', hlength⟩ := (hiff _).mp ⟨hfound, rfl⟩
    exact ⟨hfound'.symm, hlength.symm⟩
  | false =>
    have hfound' : ((build facts').findPath a b kinds maxDepth).found = false := by
      refine eq_false_of_ne_true fun htrue => ?_
      rw [((hiff _).mpr ⟨htrue, rfl⟩).1] at hfound
      cases hfound
    rw [hfound', edges_of_not_found hfound, edges_of_not_found hfound']
    exact ⟨rfl, rfl⟩

theorem truncated_perm (h : facts.Perm facts') (hkinds : o.nodeKinds = []) :
    ((build facts).traverse start o).truncated = ((build facts').traverse start o).truncated := by
  rw [Bool.eq_iff_iff, truncated_iff hkinds, truncated_iff hkinds]
  simp only [within_perm h]

/-- A traversal that drops no node reports no name at two depths. -/
theorem nodup_depths {g : Graph} (h : (g.traverse start o).truncated = false) :
    (g.traverse start o).depths.Nodup := by
  have hnames := ((Walk.Reached.atStart g o start).levels o.depthCeiling h).nodup_names
  refine List.Nodup.of_map Prod.fst ?_
  rwa [Traversal.depths, List.map_map]

theorem depths_perm (h : facts.Perm facts') (hkinds : o.nodeKinds = [])
    (hall : ((build facts).traverse start o).truncated = false) :
    ((build facts).traverse start o).depths.Perm ((build facts').traverse start o).depths := by
  have hall' := (truncated_perm h hkinds).symm.trans hall
  refine (List.perm_ext_iff_of_nodup (nodup_depths hall) (nodup_depths hall')).mpr
    fun ⟨name, depth⟩ => ?_
  rw [Traversal.mem_depths, Traversal.mem_depths, reports_iff hkinds hall, reports_iff hkinds hall',
    distance_perm h]

/-- The searches of two graphs answer alike, up to what is chosen by the order of the facts. -/
structure SameAnswers (g g' : Graph) : Prop where
  nodeCount : g.nodeCount = g'.nodeCount
  edgeCount : g.edgeCount = g'.edgeCount
  bridgeCount : g.bridgeCount = g'.bridgeCount
  findPath : ∀ source goal kinds maxDepth,
    (g.findPath source goal kinds maxDepth).found =
        (g'.findPath source goal kinds maxDepth).found ∧
      (g.findPath source goal kinds maxDepth).edges.length =
        (g'.findPath source goal kinds maxDepth).edges.length
  truncated : ∀ start o, o.nodeKinds = [] →
    (g.traverse start o).truncated = (g'.traverse start o).truncated
  depths : ∀ start o, o.nodeKinds = [] → (g.traverse start o).truncated = false →
    (g.traverse start o).depths.Perm (g'.traverse start o).depths

theorem sameAnswers_perm (h : facts.Perm facts') : SameAnswers (build facts) (build facts') where
  nodeCount := nodeCount_perm h
  edgeCount := edgeCount_perm h
  bridgeCount := bridgeCount_perm h
  findPath := findPath_perm h
  truncated _ _ := truncated_perm h
  depths _ _ := depths_perm h

end Graph

namespace Cycle

variable {internal : Classifier} {a b : String}

/-! ### Findings -/

theorem imports_perm (h : facts.Perm facts') : Imports facts internal = Imports facts' internal := by
  funext a b
  unfold Imports
  simp only [Graph.isModuleName_perm h, h.mem_iff]

theorem importsChain_perm (h : facts.Perm facts') :
    ImportsChain facts internal a b ↔ ImportsChain facts' internal a b := by
  unfold ImportsChain
  rw [imports_perm h]

/-- The members of the findings. -/
def memberSets (facts : List Fact) (internal : Classifier) : List (Multiset String) :=
  (detect facts internal).map (·.modules)

/-- Findings with no member in common are not the same, since each has members. -/
theorem nodup_memberSets (facts : List Fact) (internal : Classifier) :
    (memberSets facts internal).Nodup := by
  refine List.pairwise_map.mpr ((disjoint_modules_detect facts internal).imp_of_mem ?_)
  intro finding other hfinding _ hdisjoint hsame
  have hpos : 0 < finding.modules.length := Nat.lt_of_succ_lt (two_le_length_modules hfinding)
  obtain ⟨a, ha⟩ := List.exists_mem_of_length_pos hpos
  exact hdisjoint ha ((Multiset.coe_eq_coe.mp hsame).mem_iff.mp ha)

theorem exists_perm_modules (h : facts.Perm facts') {finding : Finding}
    (hfinding : finding ∈ detect facts internal) :
    ∃ other ∈ detect facts' internal, other.modules.Perm finding.modules := by
  -- any two members of the finding share one of the other findings as well
  have hpos : 0 < finding.modules.length := Nat.lt_of_succ_lt (two_le_length_modules hfinding)
  obtain ⟨a, ha⟩ := List.exists_mem_of_length_pos hpos
  obtain ⟨b, hb, hne⟩ := exists_other_member hfinding ha
  have hchains := (same_finding_iff hne.symm).mp ⟨finding, hfinding, ha, hb⟩
  rw [importsChain_perm h, importsChain_perm h] at hchains
  obtain ⟨other, hother, ha', -⟩ := (same_finding_iff hne.symm).mpr hchains
  refine ⟨other, hother, ?_⟩
  refine (List.perm_ext_iff_of_nodup (nodup_modules hother) (nodup_modules hfinding)).mpr fun c => ?_
  rw [mem_modules_iff hother ha', mem_modules_iff hfinding ha, importsChain_perm h,
    importsChain_perm h]

theorem memberSets_subset (h : facts.Perm facts') :
    memberSets facts internal ⊆ memberSets facts' internal := by
  intro members hmembers
  obtain ⟨finding, hfinding, rfl⟩ := List.mem_map.mp hmembers
  obtain ⟨other, hother, hperm⟩ := exists_perm_modules h hfinding
  exact List.mem_map.mpr ⟨other, hother, Multiset.coe_eq_coe.mpr hperm⟩

theorem memberSets_perm (h : facts.Perm facts') :
    (memberSets facts internal).Perm (memberSets facts' internal) :=
  (List.perm_ext_iff_of_nodup (nodup_memberSets _ _) (nodup_memberSets _ _)).mpr fun _ =>
    ⟨fun hmem => memberSets_subset h hmem, fun hmem => memberSets_subset h.symm hmem⟩

end Cycle

open ArchFacts.Graph (build SameAnswers)
open ArchFacts.Cycle (Classifier memberSets)

/-- **The order of the facts does not matter** to the sizes of the graph, to whether there is a path
and how long it is, to the depths of the names that a traversal reports if it reports all kinds of
nodes and drops none, to whether it drops one, and to which modules the findings have. -/
theorem answers_perm (h : facts.Perm facts') :
    SameAnswers (build facts) (build facts') ∧
      ∀ internal : Classifier, (memberSets facts internal).Perm (memberSets facts' internal) :=
  ⟨Graph.sameAnswers_perm h, fun _ => Cycle.memberSets_perm h⟩

/-- Two ways of two imports lead from one module to another one, which imports the first. -/
def diamond : List Fact :=
  [(Fact.of .codeModule "a").withRelation .imports "b",
    (Fact.of .codeModule "a").withRelation .imports "c",
    (Fact.of .codeModule "b").withRelation .imports "d",
    (Fact.of .codeModule "c").withRelation .imports "d",
    (Fact.of .codeModule "d").withRelation .imports "a"]

/-- Last fact first, the path that is found is the other one. -/
theorem answers_perm_diamond :
    diamond.Perm diamond.reverse ∧
      ((build diamond).findPath "a" "d" [] 0).path = ["a", "b", "d"] ∧
      ((build diamond.reverse).findPath "a" "d" [] 0).path = ["a", "c", "d"] ∧
      SameAnswers (build diamond) (build diamond.reverse) ∧
      ∀ internal : Classifier,
        (memberSets diamond internal).Perm (memberSets diamond.reverse internal) :=
  ⟨(List.reverse_perm diamond).symm, by decide, by decide,
    answers_perm (List.reverse_perm diamond).symm⟩

end ArchFacts
