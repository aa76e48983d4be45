import ArchFacts.Proofs.Cycle.Findings
import ArchFacts.Proofs.Cycle.Resolution
import ArchFacts.Proofs.Graph.Bridges
import Mathlib.Data.List.Forall2

/-!
# Imports are edges of the graph

The import graph and the graph of the facts tell what imports what by rules of their own. A target
that a file imports is resolved to one name there, and here it is followed upwards to the nearest
module. A target that is not relative and resolves to a module is that module itself, so the nearest
one is the same, and the import is a bridge of the graph if the fact that records it has a name.

So on facts without relative targets whose dependency facts all have names, an import that joins two
modules is an edge of the graph (`hop_of_imports`), and so is what the evidence for a finding
counts. Chains of imports are walks in the graph then, and its members reach each other.
-/

namespace ArchFacts.Cycle

open ArchFacts.Graph (Hop Hops)

variable {facts : List Fact} {internal : Classifier} {a b : String}

/-- The kinds of relations that are imports. -/
def importKinds : List RelationKind := [.imports, .dependsOn]

/-- Every record of what a file imports has a name. -/
def RecordsNamed (facts : List Fact) : Prop :=
  ∀ f ∈ facts, f.kind = .dependency → f.name ≠ ""

/-- No file imports a target relative to its directory. -/
def TargetsAbsolute (facts : List Fact) : Prop :=
  ∀ f ∈ facts, f.kind = .dependency → ∀ r ∈ f.relations, r.kind = .imports →
    isRelative r.target.toList = false

/-! ### Targets -/

/-- A module that a target means is the one nearest around it. -/
theorem nearestModule_of_resolve {modules : List String} {directory target name : String}
    (hrelative : isRelative target.toList = false) (hresolve : resolve directory target = some name)
    (hname : name ∈ modules) : Graph.nearestModule modules target = some name := by
  rw [resolve_of_not_relative hrelative] at hresolve
  obtain ⟨path, hpath, rfl⟩ := Option.map_eq_some_iff.mp hresolve
  obtain ⟨-, rfl⟩ := nonempty?_eq_some_iff.mp hpath
  rw [Graph.nearestModule, Graph.enclosing_of_mem hname]
  rfl

/-! ### Imports -/

theorem hop_of_mem_edges {e : Edge} (he : e ∈ Graph.edgesOf facts) (hkind : e.kind ∈ importKinds) :
    Hop (.build facts) .forward importKinds e.source e.target :=
  ⟨e, Graph.mem_outgoing.mpr ⟨he, rfl⟩, Or.inr hkind, rfl⟩

theorem hop_of_declaresImport {f : Fact} (hf : f ∈ facts) (ha : a ≠ "") (h : DeclaresImport f a b) :
    Hop (.build facts) .forward importKinds a b := by
  obtain ⟨-, rfl, r, hr, hkind, rfl⟩ := h
  refine hop_of_mem_edges (Graph.mem_edgesOf_of_relation hf ha hr) ?_
  simpa [importKinds] using hkind

theorem hop_of_recordsImport {f : Fact} (hnamed : RecordsNamed facts)
    (habsolute : TargetsAbsolute facts) (hf : f ∈ facts) (ha : IsModuleName facts a)
    (hb : IsModuleName facts b) (hne : a ≠ b) (h : RecordsImport internal f a b) :
    Hop (.build facts) .forward importKinds a b := by
  obtain ⟨hkind, hsource, r, hr, himport, -, hresolve⟩ := h
  have hnearest : Graph.nearestModule (Graph.moduleNames facts) r.target = some b :=
    nearestModule_of_resolve (habsolute f hf hkind r hr himport) hresolve
      (Graph.mem_moduleNames.mpr hb)
  have hbridge : (a, b) ∈ Graph.bridges (Graph.moduleNames facts) f :=
    Graph.mem_bridges.mpr
      ⟨hkind, hsource, Graph.mem_moduleNames.mpr ha, hne, r, hr, himport, hnearest⟩
  have hmem : ⟨a, b, .imports, true⟩ ∈ Graph.edgesOf facts :=
    (Graph.Bridged.edgesOf facts).mem_iff.mpr
      (Graph.hasBridge_edgesOf.mpr ⟨f, hf, hnamed f hf hkind, hbridge⟩)
  exact hop_of_mem_edges hmem List.mem_cons_self

/-- An import that joins two modules is an edge of the graph. -/
theorem hop_of_imports (hnamed : RecordsNamed facts) (habsolute : TargetsAbsolute facts)
    (hne : a ≠ b) (h : Imports facts internal a b) :
    Hop (.build facts) .forward importKinds a b := by
  obtain ⟨ha, hb, f, hf, himport⟩ := h
  rcases himport with hdeclares | hrecords
  · exact hop_of_declaresImport hf ha.1 hdeclares
  · exact hop_of_recordsImport hnamed habsolute hf ha hb hne hrecords

/-- A chain of imports is a walk in the graph, imports of a module by itself aside. -/
theorem hops_of_chain (hnamed : RecordsNamed facts) (habsolute : TargetsAbsolute facts)
    (h : ImportsChain facts internal a b) :
    ∃ n, Hops (.build facts) .forward importKinds n a b := by
  induction h with
  | refl => exact ⟨0, .none a⟩
  | @tail b c _ himport ih =>
    by_cases hne : b = c
    · exact hne ▸ ih
    · obtain ⟨n, walk⟩ := ih
      exact ⟨n + 1, .snoc walk (hop_of_imports hnamed habsolute hne himport)⟩

/-! ### Evidence -/

namespace ImportGraph

variable {g : ImportGraph} {members : List String}

theorem mem_importedWithin {m n : String} :
    n ∈ g.importedWithin members m ↔ (m, n) ∈ g.imports ∧ n ≠ m ∧ n ∈ members := by
  have himported : n ∈ g.importedBy m ↔ (m, n) ∈ g.imports := by
    unfold importedBy
    rw [List.mem_map]
    constructor
    · rintro ⟨⟨source, target⟩, he, rfl⟩
      obtain ⟨himport, hsource⟩ := List.mem_filter.mp he
      obtain rfl : source = m := eq_of_beq hsource
      exact himport
    · intro he
      exact ⟨(m, n), List.mem_filter.mpr ⟨he, beq_self_eq_true m⟩, rfl⟩
  rw [importedWithin, List.mem_filter, himported, Bool.and_eq_true, bne_iff_ne,
    List.contains_iff_mem]

theorem moduleName_evidence (g : ImportGraph) (members : List String) (name : String) :
    (g.evidence members name).moduleName = name := by
  unfold evidence
  split <;> rfl

theorem detail_evidence (g : ImportGraph) (members : List String) (name : String) :
    (g.evidence members name).detail =
      "imports " ++ ", ".intercalate (g.importedWithin members name) := by
  unfold evidence
  split <;> rfl

end ImportGraph

theorem evidence_detect {finding : Finding} (h : finding ∈ detect facts internal) :
    finding.evidence =
      finding.modules.map ((ImportGraph.build facts internal).evidence finding.modules) := by
  obtain ⟨members, -, rfl⟩ := List.mem_map.mp h
  rfl

/-- The evidence for a finding tells of an edge of the graph, from the member that it is about to a
member that it counts. -/
structure Supported (facts : List Fact) (internal : Classifier) (finding : Finding) (name : String)
    (evidence : Evidence) : Prop where
  moduleName : evidence.moduleName = name
  detail : evidence.detail = "imports " ++ ", ".intercalate
    ((ImportGraph.build facts internal).importedWithin finding.modules name)
  edges : ∀ other ∈ (ImportGraph.build facts internal).importedWithin finding.modules name,
    Hop (.build facts) .forward importKinds name other

/-- **The findings are cycles of the graph** if no target is relative and every dependency fact has
a name. The evidence goes through the members of a finding one by one, and each import it counts is
an edge of the graph. So any two members reach each other in the graph along imports. -/
theorem findings_in_graph (facts : List Fact) (internal : Classifier)
    (hnamed : RecordsNamed facts) (habsolute : TargetsAbsolute facts) :
    ∀ finding ∈ detect facts internal,
      List.Forall₂ (Supported facts internal finding) finding.modules finding.evidence ∧
      ∀ a ∈ finding.modules, ∀ b ∈ finding.modules,
        ∃ n, Hops (.build facts) .forward importKinds n a b := by
  intro finding hfinding
  refine ⟨?_, fun a ha b hb => ?_⟩
  · rw [evidence_detect hfinding, List.forall₂_map_right_iff, List.forall₂_same]
    intro name _
    refine ⟨ImportGraph.moduleName_evidence _ _ name, ImportGraph.detail_evidence _ _ name, ?_⟩
    intro other hother
    obtain ⟨himport, hne, -⟩ := ImportGraph.mem_importedWithin.mp hother
    exact hop_of_imports hnamed habsolute hne.symm (ImportGraph.mem_imports.mp himport)
  · by_cases hne : a = b
    · exact ⟨0, hne ▸ .none a⟩
    · exact hops_of_chain hnamed habsolute
        ((same_finding_iff hne).mp ⟨finding, hfinding, ha, hb⟩).1

/-- Two modules of which one depends on the other, while a file of that one imports the first by a
path with a slash at its end, and a package from elsewhere. -/
def ringed : List Fact :=
  [(Fact.of .codeModule "api").withRelation .dependsOn "store",
    Fact.of .codeModule "store",
    (((Fact.of .dependency "db").withFile "store/db.go" 3).withRelation .imports "api/").withRelation
      .imports "example.org/sql"]

theorem findings_in_graph_ringed :
    RecordsNamed ringed ∧ TargetsAbsolute ringed ∧
      ∃ finding ∈ detect ringed looksInternal,
        List.Forall₂ (Supported ringed looksInternal finding) finding.modules finding.evidence ∧
          (∃ n, Hops (.build ringed) .forward importKinds n "api" "store") ∧
          ∃ n, Hops (.build ringed) .forward importKinds n "store" "api" := by
  have hnamed : RecordsNamed ringed := by
    unfold RecordsNamed
    decide
  have habsolute : TargetsAbsolute ringed := by
    unfold TargetsAbsolute
    decide
  have hmodules : IsModuleName ringed "api" ∧ IsModuleName ringed "store" :=
    ⟨⟨by decide, _, .head _, rfl, rfl⟩, ⟨by decide, _, .tail _ (.head _), rfl, rfl⟩⟩
  have hforward : Imports ringed looksInternal "api" "store" := by
    refine ⟨hmodules.1, hmodules.2, _, .head _, Or.inl ?_⟩
    exact ⟨rfl, rfl, _, .head _, Or.inr rfl, rfl⟩
  have hback : Imports ringed looksInternal "store" "api" := by
    refine ⟨hmodules.2, hmodules.1, _, .tail _ (.tail _ (.head _)), Or.inr ?_⟩
    exact ⟨rfl, by decide, _, .head _, rfl, by decide, by decide⟩
  obtain ⟨finding, hfinding, hapi, hstore⟩ :=
    (same_finding_iff (by decide)).mpr ⟨.single hforward, .single hback⟩
  obtain ⟨hevidence, hreach⟩ := findings_in_graph ringed looksInternal hnamed habsolute finding
    hfinding
  exact ⟨hnamed, habsolute, finding, hfinding, hevidence, hreach _ hapi _ hstore,
    hreach _ hstore _ hapi⟩

end ArchFacts.Cycle
