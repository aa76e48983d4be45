import ArchFacts.Graph.Report
import ArchFacts.Proofs.Graph.Construction
import ArchFacts.Proofs.Graph.Discoveries
import Mathlib.Data.List.Perm.Subperm

/-!
# The edges of a traversal

An edge is reported when it is crossed, whatever becomes of the name that it reaches. So the edges
of a traversal are those at the names that it goes on from, in the order in which it found them,
each as the list at the name tells it (`Edge.ofEntry`). No name is found twice and every edge is
listed at one name, so no edge is reported more often than the graph has it.
-/

namespace ArchFacts

/-- The end of an edge from which it is followed. -/
def Edge.near (e : Edge) : Direction → String
  | .forward => e.source
  | .reverse => e.target

/-- The edge of which the list at a node tells this. In reverse the node is its target. -/
def Edge.ofEntry (direction : Direction) (name : String)
    (entry : RelationKind × String × Bool) : Edge :=
  match direction with
  | .forward => ⟨name, entry.2.1, entry.1, entry.2.2⟩
  | .reverse => ⟨entry.2.1, name, entry.1, entry.2.2⟩

theorem Edge.ofEntry_entry (direction : Direction) (e : Edge) :
    Edge.ofEntry direction (e.near direction) (e.entry direction) = e := by
  cases direction <;> rfl

/-- What the value of a traversal tells under its stats. -/
def Traversal.stat? (t : Traversal) (name : String) : Option Json.Value :=
  match t.value with
  | .object fields =>
    match Json.Fields.get? "stats" fields with
    | some (.object stats) => Json.Fields.get? name stats
    | _ => none
  | _ => none

theorem Traversal.stat?_edges (t : Traversal) :
    t.stat? "edges_traversed" = some (.ofNat t.edges.length) := by
  simp [stat?, value, Json.Value.ofPairs, Json.Fields.ofPairs, Json.Fields.get?_insert]

namespace Graph

variable {facts : List Fact} {direction : Direction} {kinds : List RelationKind} {name : String}

/-- What the list at a node tells. -/
def entries (g : Graph) (direction : Direction) (name : String) :
    List (RelationKind × String × Bool) :=
  (g.adjacent direction name).map (·.entry direction)

theorem adjacent_build (facts : List Fact) (direction : Direction) (name : String) :
    (build facts).adjacent direction name =
      (build facts).edges.filter fun e => name = e.near direction := by
  cases direction with
  | forward => exact outgoing_build facts name
  | reverse => exact incoming_build facts name

theorem mem_adjacent_build {e : Edge} :
    e ∈ (build facts).adjacent direction name ↔
      e ∈ (build facts).edges ∧ name = e.near direction := by
  rw [adjacent_build, List.mem_filter, decide_eq_true_iff]

/-- Every edge is listed at each of its ends. -/
theorem entry_mem_entries {e : Edge} (he : e ∈ (build facts).edges) :
    e.entry direction ∈ (build facts).entries direction (e.near direction) :=
  List.mem_map_of_mem (mem_adjacent_build.mpr ⟨he, rfl⟩)

/-- The edges that are crossed at a name are those that the list at the name tells of. -/
theorem crossings_build (facts : List Fact) (direction : Direction) (kinds : List RelationKind)
    (name : String) :
    (build facts).crossings direction kinds name =
      (((build facts).entries direction name).filter
        fun entry => kinds = [] ∨ entry.1 ∈ kinds).map (Edge.ofEntry direction name) := by
  have hchosen : (fun entry => decide (kinds = [] ∨ entry.1 ∈ kinds)) ∘ Edge.entry direction =
      fun e => chosen kinds e.kind := by
    funext e
    rw [Bool.eq_iff_iff, chosen_iff]
    exact decide_eq_true_iff
  have hedge : ∀ e ∈ (build facts).crossings direction kinds name,
      (Edge.ofEntry direction name ∘ Edge.entry direction) e = id e := by
    intro e he
    rw [(mem_adjacent_build.mp (List.mem_filter.mp he).1).2]
    exact Edge.ofEntry_entry direction e
  have hid := List.map_congr_left hedge
  rw [List.map_id] at hid
  rw [entries, List.filter_map, List.map_map, hchosen]
  exact hid.symm

/-- The edges that a choice of relation kinds lets pass. -/
def chosenEdges (g : Graph) (kinds : List RelationKind) : List Edge :=
  g.edges.filter fun e => chosen kinds e.kind

/-- An edge is crossed at its near end, as often as the graph has it. -/
theorem count_crossings (facts : List Fact) (direction : Direction) (kinds : List RelationKind)
    (name : String) (e : Edge) :
    ((build facts).crossings direction kinds name).count e =
      if name = e.near direction then ((build facts).chosenEdges kinds).count e else 0 := by
  have hcrossings : (build facts).crossings direction kinds name =
      ((build facts).chosenEdges kinds).filter fun e => name = e.near direction := by
    rw [crossings, adjacent_build, chosenEdges, List.filter_comm]
  rw [hcrossings]
  by_cases hname : name = e.near direction
  · rw [if_pos hname]
    exact List.count_filter (decide_eq_true hname)
  · rw [if_neg hname, List.count_eq_zero]
    intro he
    exact hname (of_decide_eq_true (List.mem_filter.mp he).2)

/-- Going through names crosses an edge as often as its near end is among them. -/
theorem count_flatMap_crossings (facts : List Fact) (direction : Direction)
    (kinds : List RelationKind) (names : List String) (e : Edge) :
    (names.flatMap ((build facts).crossings direction kinds)).count e =
      names.count (e.near direction) * ((build facts).chosenEdges kinds).count e := by
  induction names with
  | nil => exact (Nat.zero_mul _).symm
  | cons name rest ih =>
    rw [List.flatMap_cons, List.count_append, count_crossings, ih, List.count_cons, Nat.add_mul,
      Nat.add_comm]
    by_cases hname : name = e.near direction
    · simp [hname]
    · simp [hname]

end Graph

/-- What the edges of a traversal are. -/
structure Traversal.Crosses (facts : List Fact) (start : String) (o : TraversalOptions)
    (t : Traversal) : Prop where
  /-- At the names found above the depth ceiling, in the order in which they were found, the entries
  of allowed kinds are crossed in order. -/
  edges : ∃ found, t.Finds (Graph.build facts) start o found ∧
    t.edges = (found.filter (·.2 < o.depthCeiling)).flatMap fun p =>
      (((Graph.build facts).entries o.direction p.1).filter
        fun entry => o.relationKinds = [] ∨ entry.1 ∈ o.relationKinds).map
          (Edge.ofEntry o.direction p.1)
  counted : t.stat? "edges_traversed" = some (.ofNat t.edges.length)
  /-- In both directions an edge leads from the node that declares it. -/
  declared : ∀ e ∈ t.edges, e.entry .forward ∈ (Graph.build facts).entries .forward e.source
  /-- No edge is crossed more often than the graph has it. -/
  once : t.edges.Subperm (Graph.build facts).edges
  /-- Unless a name is dropped, all edges of allowed kinds at the names nearer than the depth
  ceiling are crossed. -/
  all : t.truncated = false → ∀ e : Edge, (o.relationKinds = [] ∨ e.kind ∈ o.relationKinds) →
    ∀ d < o.depthCeiling,
      (Graph.build facts).Distance o.direction o.relationKinds start (e.near o.direction) d →
        t.edges.count e = (Graph.build facts).edges.count e

namespace Graph

/-- **The edges of a traversal**, whether it drops names or not. -/
theorem traverse_edges (facts : List Fact) (start : String) (o : TraversalOptions) :
    ((build facts).traverse start o).Crosses facts start o := by
  obtain ⟨found, hfound, hedges⟩ := finds_traverse (build facts) start o
  have hcount (e : Edge) : ((build facts).traverse start o).edges.count e =
      ((found.filter (·.2 < o.depthCeiling)).map (·.1)).count (e.near o.direction) *
        ((build facts).chosenEdges o.relationKinds).count e := by
    rw [hedges, ← count_flatMap_crossings, List.flatMap_map]
  have hnodup : ((found.filter (·.2 < o.depthCeiling)).map (·.1)).Nodup :=
    hfound.nodup.sublist (List.filter_sublist.map _)
  refine
    { edges := ⟨found, hfound, ?_⟩, counted := Traversal.stat?_edges _
      declared := fun e he => ?_, once := ?_, all := fun ht e hkind d hd hdistance => ?_ }
  · rw [hedges]
    simp only [crossings_build]
  · rw [hedges] at he
    obtain ⟨p, -, he⟩ := List.mem_flatMap.mp he
    exact entry_mem_entries (mem_adjacent_build.mp (List.mem_filter.mp he).1).1
  · refine List.subperm_ext_iff.mpr fun e _ => ?_
    rw [hcount, ← Nat.one_mul (List.count e (build facts).edges)]
    exact Nat.mul_le_mul (List.nodup_iff_count_le_one.mp hnodup _) (List.filter_sublist.count_le e)
  · have hnear := hfound.mem_of_distance ht hd hdistance
    rw [hcount, List.count_eq_one_of_mem hnodup hnear, Nat.one_mul]
    exact List.count_filter (chosen_iff.mpr hkind)

/-- In reverse, too, edges lead from the node that declares them. The one from a node to itself is
crossed once. -/
example :
    let a := ((Fact.of .codeModule "a").withRelation .calls "a").withRelation .imports "b"
    ((build [a]).traverse "b" { direction := .reverse }).edges =
      [⟨"a", "b", .imports, false⟩, ⟨"a", "a", .calls, false⟩] := by
  decide

end Graph

end ArchFacts
