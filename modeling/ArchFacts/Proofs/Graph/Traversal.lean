import ArchFacts.Proofs.Graph.Levels

/-!
# What a traversal reports

A traversal that drops no node has found every name within its depth ceiling, at its distance from
the start. The kinds of nodes it is asked for choose among those names what it reports, and change
neither which names are found nor how far away they are.

The empty name can be found as well, since relations may have it as their target. But the graph
takes nothing about it from the facts that have no name, so it is of no kind and no choice of kinds
lets it pass.
-/

namespace ArchFacts

open ArchFacts.Graph (Within Distance Hops build)

/-- A name passes the choice of node kinds: there is no choice, or the first fact with the name is
of a chosen kind. Facts without a name do not speak for the empty one. -/
def TraversalOptions.Passes (o : TraversalOptions) (facts : List Fact) (name : String) : Prop :=
  o.nodeKinds = [] ∨
    name ≠ "" ∧ ∃ f, facts.find? (·.name == name) = some f ∧ f.kind ∈ o.nodeKinds

/-- A traversal of the graph of some facts that has found all it was asked for. -/
structure Traversal.Complete (facts : List Fact) (start : String) (o : TraversalOptions)
    (t : Traversal) : Prop where
  /-- The start comes first; the others are the names that pass among those some hops away. -/
  nodes : ∃ later, t.nodes = ⟨start, (build facts).info start, 0⟩ :: later ∧
    ∀ name, name ∈ later.map (·.name) ↔
      name ≠ start ∧
        (∃ n, 1 ≤ n ∧ n ≤ o.depthCeiling ∧
          Hops (build facts) o.direction o.relationKinds n start name) ∧
        o.Passes facts name
  nodup : (t.nodes.map (·.name)).Nodup
  info : ∀ n ∈ t.nodes, n.info = (build facts).info n.name
  depth : ∀ n ∈ t.nodes, Distance (build facts) o.direction o.relationKinds start n.name n.depth
  ascending : t.nodes.Pairwise (·.depth ≤ ·.depth)
  /-- The names within reach are counted, whether they are reported or not. -/
  visited : ∃ names : List String, names.Nodup ∧ names.length = t.visited ∧
    ∀ name, name ∈ names ↔
      Within (build facts) o.direction o.relationKinds o.depthCeiling start name
  /-- Some name within reach is that far away. -/
  deepest : ∃ name, Within (build facts) o.direction o.relationKinds o.depthCeiling start name ∧
    Distance (build facts) o.direction o.relationKinds start name t.deepest
  /-- No name within reach is farther away. -/
  le_deepest : ∀ name, Within (build facts) o.direction o.relationKinds o.depthCeiling start name →
    ∀ d, Distance (build facts) o.direction o.relationKinds start name d → d ≤ t.deepest

namespace Graph

variable {facts : List Fact} {o : TraversalOptions} {start : String}

theorem reports_info_iff {name : String} :
    o.reports ((build facts).info name) = true ↔ o.Passes facts name := by
  unfold TraversalOptions.reports TraversalOptions.Passes info factOf?
  by_cases hempty : name = ""
  · simp [hempty, NodeInfo.unknown]
  · cases hf : facts.find? (·.name == name) with
    | none => simp [hempty, build, hf, NodeInfo.unknown]
    | some f => simp [hempty, build, hf, NodeInfo.ofFact]

/-- The names some hops away are those within reach, the start aside. -/
theorem within_iff_of_ne {g : Graph} {direction : Direction} {kinds : List RelationKind}
    {d : Nat} {name : String} (hname : name ≠ start) :
    g.Within direction kinds d start name ↔
      ∃ n, 1 ≤ n ∧ n ≤ d ∧ g.Hops direction kinds n start name := by
  constructor
  · rintro ⟨n, hn, walk⟩
    cases n with
    | zero => exact absurd (hops_zero.mp walk) hname
    | succ n => exact ⟨n + 1, Nat.le_add_left 1 n, hn, walk⟩
  · rintro ⟨n, -, hn, walk⟩
    exact ⟨n, hn, walk⟩

/-- A walk whose first node is the start reports each other name after it. -/
theorem Walk.Reached.mem_later {d : Nat} {w : Walk} {later : List TraversalNode}
    (h : Reached (build facts) o start d w)
    (hnodes : w.nodes = ⟨start, (build facts).info start, 0⟩ :: later) (name : String) :
    name ∈ later.map (·.name) ↔
      name ≠ start ∧
        (∃ n, 1 ≤ n ∧ n ≤ d ∧ Hops (build facts) o.direction o.relationKinds n start name) ∧
        o.Passes facts name := by
  have hnodup := h.nodup_names
  rw [hnodes, List.map_cons, List.nodup_cons] at hnodup
  constructor
  · intro hname
    have hne : name ≠ start := by
      rintro rfl
      exact hnodup.1 hname
    obtain ⟨n, hn, rfl⟩ := List.mem_map.mp hname
    have hmem : n ∈ w.nodes := by
      rw [hnodes]
      exact List.mem_cons_of_mem _ hn
    -- a node other than the start is reported for its kind alone
    obtain ⟨hd, hdist, -, hr⟩ := (h.mem_nodes n).mp hmem
    refine ⟨hne, (within_iff_of_ne hne).mp (hdist.within hd), ?_⟩
    exact reports_info_iff.mp (hr.resolve_left hne)
  · rintro ⟨hne, hwalk, hpass⟩
    obtain ⟨k, hk, hdist⟩ := ((within_iff_of_ne hne).mpr hwalk).distance
    have hmem : ⟨name, (build facts).info name, k⟩ ∈ w.nodes :=
      (h.mem_nodes _).mpr ⟨hk, hdist, rfl, Or.inr (reports_info_iff.mpr hpass)⟩
    rw [hnodes] at hmem
    rcases List.mem_cons.mp hmem with heq | hlater
    · exact absurd (congrArg TraversalNode.name heq) hne
    · exact List.mem_map.mpr ⟨_, hlater, rfl⟩

/-- **A traversal that drops no node** is complete: it reports the start and, each once and at its
distance from the start, the names within the depth ceiling that pass the choice of kinds. -/
theorem traverse_complete (facts : List Fact) (start : String) (o : TraversalOptions)
    (h : ((build facts).traverse start o).truncated = false) :
    ((build facts).traverse start o).Complete facts start o := by
  have hw := (Walk.Reached.atStart (build facts) o start).levels o.depthCeiling h
  rw [Nat.zero_add] at hw
  obtain ⟨later, hlater⟩ := List.head?_eq_some_iff.mp hw.head
  exact
    { nodes := ⟨later, hlater, hw.mem_later hlater⟩
      nodup := hw.nodup_names
      info := fun n hn => ((hw.mem_nodes n).mp hn).2.2.1
      depth := fun n hn => ((hw.mem_nodes n).mp hn).2.1
      ascending := hw.ascending
      visited := ⟨_, hw.nodup_seen, hw.visited.symm, hw.seen⟩
      deepest := by
        obtain ⟨name, hdist⟩ := hw.deepest
        exact ⟨name, hdist.within hw.deepest_le, hdist⟩
      le_deepest := by
        rintro name ⟨n, hn, walk⟩ d hdist
        exact hw.le_deepest name d (Nat.le_trans (hdist.2 n walk) hn) hdist }

/-- A ring of three nodes of two kinds. -/
def ring : List Fact :=
  [(Fact.of .codeModule "a").withRelation .imports "b",
    (Fact.of .symbol "b").withRelation .calls "c",
    (Fact.of .codeModule "c").withRelation .imports "a"]

/-- A node that is not reported is gone on from all the same. -/
theorem traverse_complete_ring :
    ((build ring).traverse "a" { nodeKinds := [.codeModule] }).truncated = false ∧
      ((build ring).traverse "a" { nodeKinds := [.codeModule] }).nodes.map
        (fun n => (n.name, n.depth)) = [("a", 0), ("c", 2)] ∧
      ((build ring).traverse "a" { nodeKinds := [.codeModule] }).Complete ring "a"
        { nodeKinds := [.codeModule] } :=
  ⟨by decide, by decide, traverse_complete ring "a" _ (by decide)⟩

/-- Facts without a name do not count as the first fact with the empty name: here a call leads to
that name and the first fact with it is a symbol, but a traversal that reports symbols leaves it
out. -/
theorem empty_name_not_reported :
    ¬∀ (facts : List Fact) (start : String) (o : TraversalOptions),
      ((build facts).traverse start o).truncated = false →
        ∀ name, name ≠ start →
          (∃ n, 1 ≤ n ∧ n ≤ o.depthCeiling ∧
            Hops (build facts) o.direction o.relationKinds n start name) →
          (∃ f, facts.find? (·.name == name) = some f ∧ f.kind ∈ o.nodeKinds) →
          name ∈ ((build facts).traverse start o).nodes.map (·.name) := by
  intro h
  let facts : List Fact := [(Fact.of .symbol "a").withRelation .calls "", Fact.of .symbol ""]
  have hop : Hop (build facts) .forward [] "a" "" :=
    ⟨⟨"a", "", .calls, false⟩, by decide, Or.inl rfl, rfl⟩
  have hmem := h facts "a" { nodeKinds := [.symbol] } (by decide) "" (by decide)
    ⟨1, Nat.le_refl 1, by decide, .snoc (.none "a") hop⟩ ⟨Fact.of .symbol "", rfl, by decide⟩
  revert hmem
  decide

end Graph

end ArchFacts
