import ArchFacts.Proofs.Graph.Distance

/-!
# Both ends of an edge

The graph lists every edge twice: among the outgoing edges of the node that declares it and among
the incoming edges of its target. Each of the two lists holds the edges with that end, in the order
in which they were added, so walking an edge back from its target is the same as walking it forward
(`hop_reverse_iff`), and a name is as far away from another one in reverse as that one is forward
from it (`distance_reverse_iff`).
-/

namespace ArchFacts

namespace Index

variable {κ α : Type} [DecidableEq κ]

/-- All values of an index, key by key. -/
def values (index : Index κ α) : List α := index.entries.flatMap (·.2)

theorem perm_pushEntry (key : κ) (value : α) (entries : List (κ × List α)) :
    ((pushEntry key value entries).flatMap (·.2)).Perm (value :: entries.flatMap (·.2)) := by
  induction entries with
  | nil => exact .refl _
  | cons entry rest ih =>
    obtain ⟨k, values⟩ := entry
    by_cases hk : k = key
    · rw [pushEntry, if_pos hk, List.flatMap_cons, List.flatMap_cons, List.append_assoc]
      exact List.perm_middle
    · rw [pushEntry, if_neg hk, List.flatMap_cons, List.flatMap_cons]
      exact (ih.append_left values).trans List.perm_middle

theorem perm_values_pushAll (index : Index κ α) (pairs : List (κ × α)) :
    (index.pushAll pairs).values.Perm (pairs.map (·.2) ++ index.values) := by
  induction pairs generalizing index with
  | nil => exact .refl _
  | cons pair rest ih =>
    have hpush : (index.push pair.1 pair.2).values.Perm (pair.2 :: index.values) :=
      perm_pushEntry _ _ _
    exact (ih (index.push pair.1 pair.2)).trans
      ((hpush.append_left (rest.map (·.2))).trans List.perm_middle)

/-- The index of some values by a key lists the values with that key, in order. -/
theorem get_ofPairs_map (key : α → κ) (as : List α) (k : κ) :
    (ofPairs (as.map fun a => (key a, a))).get k = as.filter fun a => k = key a := by
  rw [ofPairs, get_pushAll, get_empty, List.nil_append, List.filter_map, List.map_map]
  exact List.map_id _

/-- The index of some values by a key loses none of them and adds none. -/
theorem perm_values_ofPairs_map (key : α → κ) (as : List α) :
    (ofPairs (as.map fun a => (key a, a))).values.Perm as := by
  have hperm := perm_values_pushAll empty (as.map fun a => (key a, a))
  have hempty : (empty : Index κ α).values = [] := rfl
  rwa [hempty, List.append_nil, List.map_map, Function.comp_def, List.map_id'] at hperm

end Index

namespace Graph

variable {facts : List Fact} {kinds : List RelationKind} {a b : String}

/-! ### The two lists -/

theorem outgoing_build (facts : List Fact) (name : String) :
    (build facts).outgoing name = (build facts).edges.filter fun e => name = e.source :=
  Index.get_ofPairs_map _ _ name

theorem incoming_build (facts : List Fact) (name : String) :
    (build facts).incoming name = (build facts).edges.filter fun e => name = e.target :=
  Index.get_ofPairs_map _ _ name

theorem mem_outgoing {e : Edge} {name : String} :
    e ∈ (build facts).outgoing name ↔ e ∈ (build facts).edges ∧ e.source = name := by
  rw [outgoing_build, List.mem_filter, decide_eq_true_iff, eq_comm]

theorem mem_incoming {e : Edge} {name : String} :
    e ∈ (build facts).incoming name ↔ e ∈ (build facts).edges ∧ e.target = name := by
  rw [incoming_build, List.mem_filter, decide_eq_true_iff, eq_comm]

/-! ### Walking back -/

theorem hop_reverse_iff :
    (build facts).Hop .reverse kinds b a ↔ (build facts).Hop .forward kinds a b := by
  constructor
  · rintro ⟨e, hin, hkind, rfl⟩
    obtain ⟨he, rfl⟩ := mem_incoming.mp hin
    exact ⟨e, mem_outgoing.mpr ⟨he, rfl⟩, hkind, rfl⟩
  · rintro ⟨e, hout, hkind, rfl⟩
    obtain ⟨he, rfl⟩ := mem_outgoing.mp hout
    exact ⟨e, mem_incoming.mpr ⟨he, rfl⟩, hkind, rfl⟩

/-- A walk may be prolonged at its start too. -/
theorem Hops.cons {g : Graph} {direction : Direction} {n : Nat} {c : String}
    (hop : g.Hop direction kinds a b) (walk : g.Hops direction kinds n b c) :
    g.Hops direction kinds (n + 1) a c := by
  induction walk with
  | none => exact .snoc (.none a) hop
  | snoc _ last ih => exact .snoc (ih hop) last

/-- Where every hop can be walked back, every walk can. -/
theorem Hops.walkBack {g : Graph} {direction back : Direction} {n : Nat}
    (hback : ∀ a b, g.Hop direction kinds b a → g.Hop back kinds a b)
    (walk : g.Hops direction kinds n b a) : g.Hops back kinds n a b := by
  induction walk with
  | none => exact .none _
  | snoc _ hop ih => exact .cons (hback _ _ hop) ih

theorem hops_reverse_iff {n : Nat} :
    (build facts).Hops .reverse kinds n b a ↔ (build facts).Hops .forward kinds n a b :=
  ⟨.walkBack fun _ _ => hop_reverse_iff.mp, .walkBack fun _ _ => hop_reverse_iff.mpr⟩

theorem distance_reverse_iff {d : Nat} :
    (build facts).Distance .reverse kinds b a d ↔ (build facts).Distance .forward kinds a b d :=
  and_congr hops_reverse_iff (forall_congr' fun _ => imp_congr_left hops_reverse_iff)

end Graph

end ArchFacts
