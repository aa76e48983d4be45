import ArchFacts.Cycle.Finding
import ArchFacts.Proofs.Cycle.Reachability
import Mathlib.Data.List.Nodup

/-!
# What imports what

A module imports another one if a fact tells so: the fact of the module itself by one of its
relations, or the record of what a file in the directory of the module imports. The import graph has
the names of the modules as its nodes, each once, and these imports as its edges (`mem_imports`). A
name stands for one node, so a walk in the graph is a chain of imports (`reaches_iff`).
-/

namespace ArchFacts

namespace DirectedGraph

variable {labels : List String} {edges : List (String × String)}

theorem label_injective {g : DirectedGraph} (h : g.labels.Nodup) : Function.Injective g.label :=
  fun _ _ hlabel => Fin.ext (h.getElem_inj_iff.mp hlabel)

theorem exists_label {g : DirectedGraph} {name : String} (h : name ∈ g.labels) :
    ∃ v : g.Node, g.label v = name := by
  obtain ⟨i, hi, rfl⟩ := List.mem_iff_getElem.mp h
  exact ⟨⟨i, hi⟩, rfl⟩

/-- Where no label repeats, the edges are those between the labels. -/
theorem adjacent_ofLabels (h : labels.Nodup) {v w : Fin labels.length} :
    (ofLabels labels edges).Adjacent v w ↔ (labels[v], labels[w]) ∈ edges := by
  -- a label stands for the first node that has it, which is the only one
  have hindex (u : Fin labels.length) (name : String) :
      labels.finIdxOf? name = some u ↔ labels[u] = name := by
    rw [List.finIdxOf?_eq_some_iff]
    refine and_iff_left_of_imp fun hname j hj hsame => ?_
    exact absurd (h.getElem_inj_iff.mp (hsame.trans hname.symm)) (Nat.ne_of_lt hj)
  refine List.mem_filterMap.trans ?_
  constructor
  · rintro ⟨⟨a, b⟩, hends, hnodes⟩
    obtain ⟨v', hv, hnodes⟩ := Option.bind_eq_some_iff.mp hnodes
    obtain ⟨w', hw, hnodes⟩ := Option.bind_eq_some_iff.mp hnodes
    obtain ⟨rfl, rfl⟩ := Prod.mk.inj (Option.some.inj hnodes)
    rw [(hindex v' a).mp hv, (hindex w' b).mp hw]
    exact hends
  · intro hends
    refine ⟨_, hends, ?_⟩
    rw [(hindex v _).mpr rfl, (hindex w _).mpr rfl]
    rfl

end DirectedGraph

namespace Cycle

/-- A fact declares an import: it is a module, and one of its relations names the target. -/
def DeclaresImport (f : Fact) (a b : String) : Prop :=
  f.kind = .codeModule ∧ f.name = a ∧
    ∃ r ∈ f.relations, (r.kind = .imports ∨ r.kind = .dependsOn) ∧ r.target = b

/-- A fact records an import: it tells what a file in the directory of the importing module imports,
and the target is taken for internal and means the imported module. -/
def RecordsImport (internal : Classifier) (f : Fact) (a b : String) : Prop :=
  f.kind = .dependency ∧ SlashPath.containingDir f.file = a ∧
    ∃ r ∈ f.relations, r.kind = .imports ∧ internal r.target = true ∧ resolve a r.target = some b

/-- One module imports another one, or itself. -/
def Imports (facts : List Fact) (internal : Classifier) (a b : String) : Prop :=
  IsModuleName facts a ∧ IsModuleName facts b ∧
    ∃ f ∈ facts, DeclaresImport f a b ∨ RecordsImport internal f a b

/-- A chain of imports leads from one name to another one; the empty chain to the name itself. -/
def ImportsChain (facts : List Fact) (internal : Classifier) : String → String → Prop :=
  Relation.ReflTransGen (Imports facts internal)

/-- A chain of imports that leaves a name is one between modules. -/
theorem ImportsChain.isModuleName {facts : List Fact} {internal : Classifier} {a b : String}
    (h : ImportsChain facts internal a b) (hne : a ≠ b) :
    IsModuleName facts a ∧ IsModuleName facts b := by
  refine ⟨?_, ?_⟩
  · obtain rfl | ⟨_, himport, -⟩ := h.cases_head
    · exact absurd rfl hne
    · exact himport.1
  · obtain rfl | ⟨_, -, himport⟩ := h.cases_tail
    · exact absurd rfl hne
    · exact himport.2.1

namespace ImportGraph

variable {facts : List Fact} {internal : Classifier} {a b : String}

/-! ### Nodes -/

theorem isModule_iff {f : Fact} : isModule f = true ↔ f.kind = .codeModule ∧ f.name ≠ "" := by
  rw [isModule, Bool.and_eq_true, beq_iff_eq, bne_iff_ne]

/-- The facts of the modules have their names, in order. -/
theorem names_declared (facts : List Fact) :
    (declared facts).map (·.name) = firstSeen ((facts.filter isModule).map (·.name)) := by
  rw [declared, List.map_filterMap]
  refine (List.filterMap_congr fun name hname => ?_).trans List.filterMap_some
  obtain ⟨f, hf, hnamed⟩ := List.mem_map.mp (mem_firstSeenAfter.mp hname).1
  obtain ⟨hf, hmodule⟩ := List.mem_filter.mp hf
  cases hfind : facts.find? fun f => isModule f && f.name == name with
  | none =>
    have hnone := List.find?_eq_none.mp hfind f hf
    rw [hmodule, hnamed] at hnone
    simp at hnone
  | some first =>
    have hfirst := List.find?_some hfind
    exact congrArg some (eq_of_beq (Bool.and_eq_true_iff.mp hfirst).2)

theorem nodup_names (facts : List Fact) (internal : Classifier) :
    (build facts internal).names.Nodup := by
  have hnames : (build facts internal).names = _ := names_declared facts
  rw [hnames]
  exact nodup_firstSeenAfter _ _

theorem label_injective (facts : List Fact) (internal : Classifier) :
    Function.Injective (build facts internal).toDirected.label :=
  DirectedGraph.label_injective (nodup_names facts internal)

theorem mem_names (facts : List Fact) (internal : Classifier) {name : String} :
    name ∈ (build facts internal).names ↔ IsModuleName facts name := by
  have hnames : (build facts internal).names = _ := names_declared facts
  rw [hnames, firstSeen, mem_firstSeenAfter, List.mem_map]
  constructor
  · rintro ⟨⟨f, hf, rfl⟩, -⟩
    obtain ⟨hf, hmodule⟩ := List.mem_filter.mp hf
    obtain ⟨hkind, hname⟩ := isModule_iff.mp hmodule
    exact ⟨hname, f, hf, hkind, rfl⟩
  · rintro ⟨hname, f, hf, hkind, rfl⟩
    exact ⟨⟨f, List.mem_filter.mpr ⟨hf, isModule_iff.mpr ⟨hkind, hname⟩⟩, rfl⟩, List.not_mem_nil⟩

/-! ### Edges -/

theorem mem_importsOf {f : Fact} :
    (a, b) ∈ importsOf internal f ↔ DeclaresImport f a b ∨ RecordsImport internal f a b := by
  unfold importsOf DeclaresImport RecordsImport
  by_cases hmodule : f.kind = .codeModule
  · have hother : f.kind ≠ .dependency := by
      rw [hmodule]
      decide
    rw [if_pos hmodule, List.mem_map]
    constructor
    · rintro ⟨r, hr, hends⟩
      obtain ⟨hr, hkind⟩ := List.mem_filter.mp hr
      obtain ⟨rfl, rfl⟩ := Prod.mk.inj hends
      exact Or.inl ⟨hmodule, rfl, r, hr, of_decide_eq_true hkind, rfl⟩
    · rintro (⟨-, rfl, r, hr, hkind, rfl⟩ | ⟨hdependency, -⟩)
      · exact ⟨r, List.mem_filter.mpr ⟨hr, decide_eq_true hkind⟩, rfl⟩
      · exact absurd hdependency hother
  · rw [if_neg hmodule]
    by_cases hdependency : f.kind = .dependency
    · rw [if_pos hdependency, List.mem_filterMap]
      constructor
      · rintro ⟨r, hr, hends⟩
        obtain ⟨hr, hkind⟩ := List.mem_filter.mp hr
        obtain ⟨hkind, hinternal⟩ := of_decide_eq_true hkind
        obtain ⟨target, htarget, hends⟩ := Option.map_eq_some_iff.mp hends
        obtain ⟨rfl, rfl⟩ := Prod.mk.inj hends
        exact Or.inr ⟨hdependency, rfl, r, hr, hkind, hinternal, htarget⟩
      · rintro (⟨h, -⟩ | ⟨-, rfl, r, hr, hkind, hinternal, htarget⟩)
        · exact absurd h hmodule
        · refine ⟨r, List.mem_filter.mpr ⟨hr, decide_eq_true ⟨hkind, hinternal⟩⟩, ?_⟩
          rw [htarget]
          rfl
    · rw [if_neg hdependency]
      constructor
      · intro h
        cases h
      · rintro (⟨h, -⟩ | ⟨h, -⟩)
        · exact absurd h hmodule
        · exact absurd h hdependency

/-- The edges of the import graph are the imports among modules. -/
theorem mem_imports : (a, b) ∈ (build facts internal).imports ↔ Imports facts internal a b := by
  have hknown (name : String) :
      ((declared facts).map (·.name)).contains name = true ↔ IsModuleName facts name := by
    rw [List.contains_iff_mem]
    exact mem_names facts internal
  unfold build Imports
  dsimp only
  rw [firstSeen, mem_firstSeenAfter, List.mem_filter, List.mem_flatMap, Bool.and_eq_true, hknown,
    hknown]
  constructor
  · rintro ⟨⟨⟨f, hf, himport⟩, ha, hb⟩, -⟩
    exact ⟨ha, hb, f, hf, mem_importsOf.mp himport⟩
  · rintro ⟨ha, hb, f, hf, himport⟩
    exact ⟨⟨⟨f, hf, mem_importsOf.mpr himport⟩, ha, hb⟩, List.not_mem_nil⟩

/-! ### Walks -/

variable {v w : (build facts internal).toDirected.Node}

theorem adjacent_iff : (build facts internal).toDirected.Adjacent v w ↔
    Imports facts internal ((build facts internal).toDirected.label v)
      ((build facts internal).toDirected.label w) :=
  (DirectedGraph.adjacent_ofLabels (nodup_names facts internal)).trans mem_imports

theorem exists_node (internal : Classifier) (h : IsModuleName facts a) :
    ∃ v, (build facts internal).toDirected.label v = a :=
  DirectedGraph.exists_label ((mem_names facts internal).mpr h)

theorem reaches_of_chain (h : ImportsChain facts internal
    ((build facts internal).toDirected.label v) b) :
    ∀ w, (build facts internal).toDirected.label w = b →
      (build facts internal).toDirected.Reaches v w := by
  induction h with
  | refl =>
    intro w hw
    obtain rfl := label_injective facts internal hw
    exact .refl w
  | tail _ himport ih =>
    rintro w rfl
    obtain ⟨u, hu⟩ := exists_node internal himport.1
    rw [← hu] at himport
    exact (ih u hu).trans (adjacent_iff.mpr himport).reaches

/-- A walk in the import graph is a chain of imports. -/
theorem reaches_iff : (build facts internal).toDirected.Reaches v w ↔
    ImportsChain facts internal ((build facts internal).toDirected.label v)
      ((build facts internal).toDirected.label w) := by
  constructor
  · intro h
    induction h with
    | refl => exact .refl
    | tail _ edge ih => exact ih.tail (adjacent_iff.mp edge)
  · intro h
    exact reaches_of_chain h w rfl

end ImportGraph

end Cycle

end ArchFacts
