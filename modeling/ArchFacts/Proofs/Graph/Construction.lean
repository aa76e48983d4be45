import ArchFacts.Proofs.Graph.Adjacency
import Mathlib.Data.List.Basic

/-!
# The graph is built consistently

The edges are added fact by fact, those that a fact declares before the bridges that its imports
ask for. Taken apart, the two kinds of edges do not disturb each other: leaving the bridges out
gives the relations of the facts in order (`declared_edgesOf`), and of the bridges every one joins
two modules and none is there twice (`Bridged`). Both lists at the nodes are made from these edges,
so what they hold agrees (`build_consistent`).
-/

namespace ArchFacts

/-- What a list of edges at a node tells of each: its kind, the node at its other end, and whether
it is a bridge. -/
def Edge.entry (direction : Direction) (e : Edge) : RelationKind × String × Bool :=
  (e.kind, e.reached direction, e.synthetic)

/-- The relation that declares an edge. -/
def Edge.relation (e : Edge) : Relation := ⟨e.kind, e.target⟩

/-- Whether an edge is a bridge between two modules. -/
def Edge.bridges (ends : String × String) (e : Edge) : Bool :=
  e.synthetic && e.source == ends.1 && e.target == ends.2

namespace Graph

variable {facts : List Fact} {modules : List String} {edges : List Edge}

theorem mem_moduleNames {name : String} : name ∈ moduleNames facts ↔ IsModuleName facts name := by
  unfold moduleNames IsModuleName
  rw [List.mem_map]
  constructor
  · rintro ⟨f, hf, rfl⟩
    obtain ⟨hf, hmodule⟩ := List.mem_filter.mp hf
    obtain ⟨hkind, hname⟩ := of_decide_eq_true hmodule
    exact ⟨hname, f, hf, hkind, rfl⟩
  · rintro ⟨hname, f, hf, hkind, rfl⟩
    exact ⟨f, List.mem_filter.mpr ⟨hf, decide_eq_true ⟨hkind, hname⟩⟩, rfl⟩

/-! ### Declared edges -/

/-- The edges that facts declare, among others. -/
def declared (edges : List Edge) : List Edge := edges.filter (!·.synthetic)

theorem declared_append (first second : List Edge) :
    declared (first ++ second) = declared first ++ declared second :=
  List.filter_append ..

theorem declared_declaredEdges (f : Fact) : declared (declaredEdges f) = declaredEdges f := by
  refine List.filter_eq_self.mpr fun e he => ?_
  obtain ⟨r, -, rfl⟩ := List.mem_map.mp he
  rfl

theorem declared_addBridge (edges : List Edge) (ends : String × String) :
    declared (addBridge edges ends) = declared edges := by
  unfold addBridge
  by_cases h : hasBridge edges ends
  · rw [if_pos h]
  · rw [if_neg h, declared_append]
    exact List.append_nil _

theorem declared_foldl_addBridge (edges : List Edge) (joins : List (String × String)) :
    declared (joins.foldl addBridge edges) = declared edges := by
  induction joins generalizing edges with
  | nil => rfl
  | cons ends rest ih => exact (ih (addBridge edges ends)).trans (declared_addBridge edges ends)

/-- A fact declares its edges after those that are there. -/
theorem declared_addFact (modules : List String) (edges : List Edge) (f : Fact) :
    declared (addFact modules edges f) =
      declared edges ++ if f.name = "" then [] else declaredEdges f := by
  unfold addFact
  by_cases h : f.name = ""
  · rw [if_pos h, if_pos h, List.append_nil]
  · rw [if_neg h, if_neg h, declared_foldl_addBridge, declared_append, declared_declaredEdges]

theorem declared_foldl_addFact (modules : List String) (edges : List Edge) (facts : List Fact) :
    declared (facts.foldl (addFact modules) edges) =
      declared edges ++ (facts.filter (·.name ≠ "")).flatMap declaredEdges := by
  induction facts generalizing edges with
  | nil => exact (List.append_nil _).symm
  | cons f rest ih =>
    rw [List.foldl_cons, ih, declared_addFact, List.append_assoc]
    by_cases h : f.name = ""
    · simp [h]
    · simp [h]

theorem declared_edgesOf (facts : List Fact) :
    declared (edgesOf facts) = (facts.filter (·.name ≠ "")).flatMap declaredEdges :=
  declared_foldl_addFact _ [] facts

/-- The edges that facts with a name declare are their relations. -/
theorem filter_source_flatMap_declaredEdges (facts : List Fact) (name : String) :
    ((facts.flatMap declaredEdges).filter fun e => name = e.source).map Edge.relation =
      (facts.filter fun f => f.name = name).flatMap (·.relations) := by
  induction facts with
  | nil => rfl
  | cons f rest ih =>
    rw [List.flatMap_cons, List.filter_append, List.map_append, ih]
    have hrelations : (declaredEdges f).map Edge.relation = f.relations := by
      rw [declaredEdges, List.map_map]
      exact List.map_id _
    by_cases h : f.name = name
    · have hall : (declaredEdges f).filter (fun e => name = e.source) = declaredEdges f := by
        refine List.filter_eq_self.mpr fun e he => ?_
        obtain ⟨r, -, rfl⟩ := List.mem_map.mp he
        exact decide_eq_true h.symm
      have hpos : decide (f.name = name) = true := decide_eq_true h
      rw [hall, hrelations, List.filter_cons, if_pos hpos, List.flatMap_cons]
    · have hnone : (declaredEdges f).filter (fun e => name = e.source) = [] := by
        refine List.filter_eq_nil_iff.mpr fun e he hsource => ?_
        obtain ⟨r, -, rfl⟩ := List.mem_map.mp he
        exact h (of_decide_eq_true hsource).symm
      have hneg : ¬decide (f.name = name) = true := fun hname => h (of_decide_eq_true hname)
      rw [hnone, List.filter_cons, if_neg hneg, List.map_nil, List.nil_append]

/-! ### Bridges -/

theorem enclosing_mem {path found : List Char} (h : enclosing modules path = some found) :
    String.ofList found ∈ modules := by
  fun_induction enclosing modules path with
  | case1 path hmem =>
    obtain rfl := Option.some.inj h
    exact hmem
  | case2 path hmem parent hparent ih => exact ih h
  | case3 path hmem hparent => cases h

theorem nearestModule_mem {target name : String} (h : nearestModule modules target = some name) :
    name ∈ modules := by
  obtain ⟨found, hfound, rfl⟩ := Option.map_eq_some_iff.mp h
  exact enclosing_mem hfound

/-- The ends of the bridges that a fact asks for. -/
theorem mem_bridges {f : Fact} {ends : String × String} :
    ends ∈ bridges modules f ↔
      f.kind = .dependency ∧ SlashPath.containingDir f.file = ends.1 ∧ ends.1 ∈ modules ∧
        ends.1 ≠ ends.2 ∧
        ∃ r ∈ f.relations, r.kind = .imports ∧ nearestModule modules r.target = some ends.2 := by
  obtain ⟨source, target⟩ := ends
  unfold bridges
  dsimp only
  by_cases hf : f.kind = .dependency ∧ SlashPath.containingDir f.file ∈ modules
  · rw [if_pos hf, List.mem_filterMap]
    constructor
    · rintro ⟨r, hr, hends⟩
      obtain ⟨hr, hkind⟩ := List.mem_filter.mp hr
      obtain ⟨found, hfound, hends⟩ := Option.bind_eq_some_iff.mp hends
      by_cases hsame : found = SlashPath.containingDir f.file
      · rw [if_pos hsame] at hends
        cases hends
      · rw [if_neg hsame] at hends
        obtain ⟨rfl, rfl⟩ := Prod.mk.inj (Option.some.inj hends)
        exact ⟨hf.1, rfl, hf.2, fun h => hsame h.symm, r, hr, of_decide_eq_true hkind, hfound⟩
    · rintro ⟨-, rfl, -, hne, r, hr, hkind, hfound⟩
      refine ⟨r, List.mem_filter.mpr ⟨hr, decide_eq_true hkind⟩, ?_⟩
      rw [hfound, Option.bind_some, if_neg fun h => hne h.symm]
  · rw [if_neg hf]
    constructor
    · intro h
      cases h
    · rintro ⟨hkind, rfl, hmem, -⟩
      exact absurd ⟨hkind, hmem⟩ hf

/-- The bridges among some edges join two modules each, and no two of them join the same ones. -/
structure Bridged (modules : List String) (edges : List Edge) : Prop where
  joins : ∀ e ∈ edges, e.synthetic = true →
    e.kind = .imports ∧ e.source ∈ modules ∧ e.target ∈ modules ∧ e.source ≠ e.target
  once : ∀ ends, edges.countP (Edge.bridges ends) ≤ 1

namespace Bridged

theorem nil (modules : List String) : Bridged modules [] :=
  ⟨fun _ he => absurd he List.not_mem_nil, fun _ => Nat.zero_le 1⟩

/-- Declared edges are no bridges. -/
theorem append_declaredEdges (h : Bridged modules edges) (f : Fact) :
    Bridged modules (edges ++ declaredEdges f) := by
  have hplain : ∀ e ∈ declaredEdges f, e.synthetic = false := by
    intro e he
    obtain ⟨r, -, rfl⟩ := List.mem_map.mp he
    rfl
  refine ⟨fun e he hsynthetic => ?_, fun ends => ?_⟩
  · rcases List.mem_append.mp he with he | he
    · exact h.joins e he hsynthetic
    · rw [hplain e he] at hsynthetic
      cases hsynthetic
  · have hnone : (declaredEdges f).countP (Edge.bridges ends) = 0 := by
      refine List.countP_eq_zero.mpr fun e he => ?_
      rw [Edge.bridges, hplain e he]
      exact Bool.false_ne_true
    rw [List.countP_append, hnone]
    exact h.once ends

theorem addBridge (h : Bridged modules edges) {ends : String × String} (hsource : ends.1 ∈ modules)
    (htarget : ends.2 ∈ modules) (hne : ends.1 ≠ ends.2) :
    Bridged modules (addBridge edges ends) := by
  unfold Graph.addBridge
  by_cases hbridge : hasBridge edges ends
  · rw [if_pos hbridge]
    exact h
  · rw [if_neg hbridge]
    refine ⟨fun e he hsynthetic => ?_, fun ends' => ?_⟩
    · rcases List.mem_append.mp he with he | he
      · exact h.joins e he hsynthetic
      · obtain rfl := List.mem_singleton.mp he
        exact ⟨rfl, hsource, htarget, hne⟩
    · rw [List.countP_append, List.countP_singleton]
      by_cases hsame : ends' = ends
      · -- none was there before
        have hnone : edges.countP (Edge.bridges ends') = 0 := by
          refine List.countP_eq_zero.mpr fun e he hjoins => hbridge ?_
          exact List.any_eq_true.mpr ⟨e, he, hsame ▸ hjoins⟩
        rw [hnone]
        split <;> omega
      · have hother : ¬Edge.bridges ends' ⟨ends.1, ends.2, .imports, true⟩ = true := by
          intro hjoins
          obtain ⟨h₁, h₂⟩ : ends.1 = ends'.1 ∧ ends.2 = ends'.2 := by
            simpa [Edge.bridges] using hjoins
          exact hsame (Prod.ext h₁.symm h₂.symm)
        rw [if_neg hother]
        exact h.once ends'

theorem foldl_addBridge (h : Bridged modules edges) {joins : List (String × String)}
    (hjoins : ∀ ends ∈ joins, ends.1 ∈ modules ∧ ends.2 ∈ modules ∧ ends.1 ≠ ends.2) :
    Bridged modules (joins.foldl Graph.addBridge edges) := by
  induction joins generalizing edges with
  | nil => exact h
  | cons ends rest ih =>
    obtain ⟨⟨hsource, htarget, hne⟩, hrest⟩ := List.forall_mem_cons.mp hjoins
    exact ih (h.addBridge hsource htarget hne) hrest

theorem addFact (h : Bridged modules edges) (f : Fact) :
    Bridged modules (addFact modules edges f) := by
  unfold Graph.addFact
  by_cases hname : f.name = ""
  · rw [if_pos hname]
    exact h
  · rw [if_neg hname]
    refine (h.append_declaredEdges f).foldl_addBridge fun ends hends => ?_
    obtain ⟨-, -, hsource, hne, r, -, -, htarget⟩ := mem_bridges.mp hends
    exact ⟨hsource, nearestModule_mem htarget, hne⟩

theorem foldl_addFact (h : Bridged modules edges) (facts : List Fact) :
    Bridged modules (facts.foldl (Graph.addFact modules) edges) := by
  induction facts generalizing edges with
  | nil => exact h
  | cons f rest ih => exact ih (h.addFact f)

theorem edgesOf (facts : List Fact) : Bridged (moduleNames facts) (edgesOf facts) :=
  (Bridged.nil _).foldl_addFact facts

end Bridged

/-! ### Nodes -/

theorem factOf?_eq_none {name : String} :
    (build facts).factOf? name = none ↔ name = "" ∨ ∀ f ∈ facts, f.name ≠ name := by
  unfold factOf?
  by_cases h : name = ""
  · simp [h]
  · simp [h, build]

/-- What is known of a name is what the first fact with it tells. -/
theorem info_of_first {before after : List Fact} {f : Fact} (hfacts : facts = before ++ f :: after)
    (hname : f.name ≠ "") (hfirst : ∀ earlier ∈ before, earlier.name ≠ f.name) :
    (build facts).info f.name = ⟨some f.kind, f.file, f.line⟩ := by
  have hfind : (build facts).factOf? f.name = some f := by
    rw [factOf?, if_neg hname, hfacts]
    change (before ++ f :: after).find? (·.name == f.name) = some f
    have hbefore : before.find? (·.name == f.name) = none :=
      List.find?_eq_none.mpr fun earlier he => by simpa using hfirst earlier he
    rw [List.find?_append, hbefore]
    simp
  rw [info, hfind]
  rfl

/-- Nothing is known of a name that no fact has. A known node has a kind. -/
theorem info_eq_unknown {name : String} :
    (build facts).info name = ⟨none, "", 0⟩ ↔ name = "" ∨ ∀ f ∈ facts, f.name ≠ name := by
  rw [← factOf?_eq_none, info]
  cases (build facts).factOf? name with
  | none => exact iff_of_true rfl rfl
  | some f =>
    refine iff_of_false (fun h => ?_) (Option.some_ne_none f)
    cases congrArg NodeInfo.kind h

/-! ### The result -/

/-- What holds of the graph of some facts. -/
structure Consistent (facts : List Fact) (g : Graph) : Prop where
  /-- An edge from `a` to `b` is listed at `a` as often as it is listed at `b`. -/
  mirrored : ∀ a b kind synthetic,
    ((g.outgoing a).map (·.entry .forward)).count (kind, b, synthetic) =
      ((g.incoming b).map (·.entry .reverse)).count (kind, a, synthetic)
  /-- Bridges aside, a node has the relations of the facts with its name, in order. -/
  relations : ∀ a, (declared (g.outgoing a)).map Edge.relation =
    (facts.filter fun f => f.name = a ∧ a ≠ "").flatMap (·.relations)
  /-- A bridge is an import that joins two modules. -/
  joins : ∀ a, ∀ e ∈ g.outgoing a, e.synthetic = true →
    e.kind = .imports ∧ IsModuleName facts a ∧ IsModuleName facts e.target ∧ a ≠ e.target
  /-- There is at most one bridge from a module to another one. -/
  once : ∀ a b, ((g.outgoing a).filter fun e => e.synthetic && e.target == b).length ≤ 1
  edgeCount_forward : g.forward.values.length = g.edgeCount
  edgeCount_reverse : g.reverse.values.length = g.edgeCount
  bridgeCount_forward : g.forward.values.countP (·.synthetic) = g.bridgeCount
  bridgeCount_reverse : g.reverse.values.countP (·.synthetic) = g.bridgeCount
  /-- The names that facts have are counted. -/
  nodeCount : ∃ names : List String, names.Nodup ∧ names.length = g.nodeCount ∧
    ∀ name, name ∈ names ↔ name ≠ "" ∧ ∃ f ∈ facts, f.name = name
  /-- The first fact with a name tells what is known of it. -/
  info : ∀ before f after, facts = before ++ f :: after → f.name ≠ "" →
    (∀ earlier ∈ before, earlier.name ≠ f.name) → g.info f.name = ⟨some f.kind, f.file, f.line⟩
  info_unknown : ∀ name, g.info name = ⟨none, "", 0⟩ ↔ name = "" ∨ ∀ f ∈ facts, f.name ≠ name

/-- Members of a list that are picked out and told apart by two properties are as many as there are
of the one member that has both. -/
theorem count_map_filter {α β : Type} [BEq α] [LawfulBEq α] [BEq β] [LawfulBEq β] {f : α → β}
    {p : α → Bool} {a : α} {b : β} (h : ∀ x, f x = b ∧ p x = true ↔ x = a) (xs : List α) :
    ((xs.filter p).map f).count b = xs.count a := by
  rw [List.count_eq_countP, List.countP_map, List.countP_filter, List.count_eq_countP]
  refine List.countP_congr fun x _ => ?_
  rw [Bool.and_eq_true, beq_iff_eq, ← h x]
  exact and_congr_left fun _ => beq_iff_eq

theorem count_outgoing (facts : List Fact) (a b : String) (kind : RelationKind) (synthetic : Bool) :
    (((build facts).outgoing a).map (·.entry .forward)).count (kind, b, synthetic) =
      (build facts).edges.count ⟨a, b, kind, synthetic⟩ := by
  rw [outgoing_build]
  refine count_map_filter (fun e => ?_) _
  constructor
  · rintro ⟨hentry, hsource⟩
    obtain rfl := of_decide_eq_true hsource
    cases hentry
    rfl
  · rintro rfl
    exact ⟨rfl, decide_eq_true rfl⟩

theorem count_incoming (facts : List Fact) (a b : String) (kind : RelationKind) (synthetic : Bool) :
    (((build facts).incoming b).map (·.entry .reverse)).count (kind, a, synthetic) =
      (build facts).edges.count ⟨a, b, kind, synthetic⟩ := by
  rw [incoming_build]
  refine count_map_filter (fun e => ?_) _
  constructor
  · rintro ⟨hentry, htarget⟩
    obtain rfl := of_decide_eq_true htarget
    cases hentry
    rfl
  · rintro rfl
    exact ⟨rfl, decide_eq_true rfl⟩

/-- Bridges aside, the edges at a node are the relations of the facts with its name. -/
theorem relations_outgoing (facts : List Fact) (a : String) :
    (declared ((build facts).outgoing a)).map Edge.relation =
      (facts.filter fun f => f.name = a ∧ a ≠ "").flatMap (·.relations) := by
  have hswap : declared ((build facts).outgoing a) =
      (declared (edgesOf facts)).filter fun e => a = e.source := by
    rw [outgoing_build, declared, declared, List.filter_filter, List.filter_filter]
    exact List.filter_congr fun e _ => Bool.and_comm _ _
  have hnamed : (facts.filter (·.name ≠ "")).filter (fun f => f.name = a) =
      facts.filter fun f => f.name = a ∧ a ≠ "" := by
    rw [List.filter_filter]
    refine List.filter_congr fun f _ => ?_
    rw [← Bool.decide_and]
    exact decide_eq_decide.mpr (and_congr_right fun h => by rw [h])
  rw [hswap, declared_edgesOf, filter_source_flatMap_declaredEdges, hnamed]

/-- **The graph of some facts is consistent**: the lists at the two ends of an edge agree, bridges
aside they hold the relations of the facts, bridges join different modules and only once, the
numbers count what the lists hold, and what is known of a node comes from the first fact with its
name. -/
theorem build_consistent (facts : List Fact) : Consistent facts (build facts) := by
  have hbridged : Bridged (moduleNames facts) (build facts).edges := .edgesOf facts
  have hforward : (build facts).forward.values.Perm (build facts).edges :=
    Index.perm_values_ofPairs_map _ _
  have hreverse : (build facts).reverse.values.Perm (build facts).edges :=
    Index.perm_values_ofPairs_map _ _
  exact
    { mirrored := fun a b kind synthetic =>
        (count_outgoing facts a b kind synthetic).trans
          (count_incoming facts a b kind synthetic).symm
      relations := relations_outgoing facts
      joins := by
        intro a e hout hsynthetic
        obtain ⟨he, rfl⟩ := mem_outgoing.mp hout
        obtain ⟨hkind, hsource, htarget, hne⟩ := hbridged.joins e he hsynthetic
        exact ⟨hkind, mem_moduleNames.mp hsource, mem_moduleNames.mp htarget, hne⟩
      once := by
        intro a b
        refine Nat.le_trans (Nat.le_of_eq ?_) (hbridged.once (a, b))
        rw [outgoing_build, List.filter_filter, ← List.countP_eq_length_filter]
        refine List.countP_congr fun e _ => ?_
        simp only [Edge.bridges, Bool.and_eq_true, decide_eq_true_iff, beq_iff_eq]
        constructor
        · rintro ⟨⟨hsynthetic, htarget⟩, rfl⟩
          exact ⟨⟨hsynthetic, rfl⟩, htarget⟩
        · rintro ⟨⟨hsynthetic, rfl⟩, htarget⟩
          exact ⟨⟨hsynthetic, htarget⟩, rfl⟩
      edgeCount_forward := hforward.length_eq
      edgeCount_reverse := hreverse.length_eq
      bridgeCount_forward := hforward.countP_eq _
      bridgeCount_reverse := hreverse.countP_eq _
      nodeCount := by
        refine ⟨_, nodup_firstSeenAfter [] _, rfl, fun name => ?_⟩
        rw [mem_firstSeenAfter, List.mem_filter, List.mem_map, decide_eq_true_iff]
        constructor
        · rintro ⟨⟨hf, hname⟩, -⟩
          exact ⟨hname, hf⟩
        · rintro ⟨hname, hf⟩
          exact ⟨⟨hf, hname⟩, List.not_mem_nil⟩
      info := fun _ _ _ hfacts hname hfirst => info_of_first hfacts hname hfirst
      info_unknown := fun _ => info_eq_unknown }

/-- A fact without a name tells nothing of the empty name: it is there, but nothing is known. -/
theorem nameless_fact_unknown :
    ¬∀ (facts : List Fact) (name : String),
      (build facts).info name = ⟨none, "", 0⟩ ↔ ∀ f ∈ facts, f.name ≠ name := by
  intro h
  have hnone := (h [Fact.of .symbol ""] "").mp (by decide)
  exact hnone _ List.mem_cons_self rfl

end Graph

end ArchFacts
