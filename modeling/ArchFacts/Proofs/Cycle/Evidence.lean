import ArchFacts.Proofs.Cycle.FindingPath
import ArchFacts.Proofs.Cycle.GraphEdges

/-!
# The evidence for a finding

Each member of a finding has its evidence: where it is declared first and which of the other members
it imports. The imports stand in the order in which the relations of the facts, gone through one by
one, tell of them first (`pairwise_importedWithin`). Since every member is reached from the others,
an import leads out of it into the rest, and so none is without (`evidence_of_finding`).
-/

namespace ArchFacts.Cycle

open DirectedGraph

variable {facts : List Fact} {internal : Classifier} {a b : String}

/-! ### What relations tell -/

/-- The relations of some facts, each with the fact that has it. -/
def relationsOf (facts : List Fact) : List (Fact × Relation) :=
  facts.flatMap fun f => f.relations.map fun r => (f, r)

/-- A relation of a fact tells that one name imports another one: the fact is the module and names
the target, or it records what a file in the directory of the module imports. -/
def Tells (internal : Classifier) (told : Fact × Relation) (a b : String) : Prop :=
  told.1.kind = .codeModule ∧ told.1.name = a ∧
      (told.2.kind = .imports ∨ told.2.kind = .dependsOn) ∧ told.2.target = b ∨
    told.1.kind = .dependency ∧ SlashPath.containingDir told.1.file = a ∧
      told.2.kind = .imports ∧ internal told.2.target = true ∧ resolve a told.2.target = some b

/-- Going through the relations of the facts, one is told to import `b` before it is told to import
`c`. -/
def ToldBefore (facts : List Fact) (internal : Classifier) (a b c : String) : Prop :=
  ∃ earlier told later, relationsOf facts = earlier ++ told :: later ∧ Tells internal told a b ∧
    ∀ other ∈ earlier, ¬Tells internal other a c

namespace ImportGraph

/-- The import that a relation tells of. -/
def importOf? (internal : Classifier) (told : Fact × Relation) : Option (String × String) :=
  if told.1.kind = .codeModule then
    if told.2.kind = .imports ∨ told.2.kind = .dependsOn then some (told.1.name, told.2.target)
    else none
  else if told.1.kind = .dependency then
    if told.2.kind = .imports ∧ internal told.2.target then
      (resolve (SlashPath.containingDir told.1.file) told.2.target).map fun target =>
        (SlashPath.containingDir told.1.file, target)
    else none
  else none

theorem importOf?_eq_some_iff {told : Fact × Relation} :
    importOf? internal told = some (a, b) ↔ Tells internal told a b := by
  unfold importOf? Tells
  by_cases hmodule : told.1.kind = .codeModule
  · have hother : told.1.kind ≠ .dependency := by
      rw [hmodule]
      decide
    rw [if_pos hmodule]
    refine Iff.trans ?_ (or_iff_left fun h => hother h.1).symm
    by_cases hcounts : told.2.kind = .imports ∨ told.2.kind = .dependsOn
    · rw [if_pos hcounts]
      constructor
      · intro hends
        obtain ⟨rfl, rfl⟩ := Prod.mk.inj (Option.some.inj hends)
        exact ⟨hmodule, rfl, hcounts, rfl⟩
      · rintro ⟨-, rfl, -, rfl⟩
        rfl
    · rw [if_neg hcounts]
      exact iff_of_false nofun fun h => hcounts h.2.2.1
  · by_cases hdependency : told.1.kind = .dependency
    · rw [if_neg hmodule, if_pos hdependency, or_iff_right fun h => hmodule h.1]
      by_cases hcounts : told.2.kind = .imports ∧ internal told.2.target = true
      · rw [if_pos hcounts, Option.map_eq_some_iff]
        constructor
        · rintro ⟨target, htarget, hends⟩
          obtain ⟨rfl, rfl⟩ := Prod.mk.inj hends
          exact ⟨hdependency, rfl, hcounts.1, hcounts.2, htarget⟩
        · rintro ⟨-, rfl, -, -, htarget⟩
          exact ⟨b, htarget, rfl⟩
      · rw [if_neg hcounts]
        exact iff_of_false nofun fun h => hcounts ⟨h.2.2.1, h.2.2.2.1⟩
    · rw [if_neg hmodule, if_neg hdependency]
      exact iff_of_false nofun fun h => h.elim (fun h => hmodule h.1) fun h => hdependency h.1

theorem flatMap_importsOf (internal : Classifier) (facts : List Fact) :
    facts.flatMap (importsOf internal) = (relationsOf facts).filterMap (importOf? internal) := by
  rw [relationsOf, List.filterMap_flatMap]
  refine List.flatMap_congr fun f _ => ?_
  rw [List.filterMap_map, importsOf]
  by_cases hmodule : f.kind = .codeModule
  · rw [if_pos hmodule, ← List.filterMap_eq_map, List.filterMap_filter]
    refine List.filterMap_congr fun r _ => ?_
    simp [importOf?, hmodule]
  · rw [if_neg hmodule]
    by_cases hdependency : f.kind = .dependency
    · rw [if_pos hdependency, List.filterMap_filter]
      refine List.filterMap_congr fun r _ => ?_
      simp only [Function.comp_apply, importOf?, if_neg hmodule, if_pos hdependency,
        decide_eq_true_iff]
    · rw [if_neg hdependency]
      simp [importOf?, hmodule, hdependency, Function.comp_def]

/-- Whether both ends of an import are modules. -/
def joinsModules (g : ImportGraph) (e : String × String) : Bool :=
  g.names.contains e.1 && g.names.contains e.2

/-- The edges are the imports that the relations tell of, each as it is told first. -/
theorem imports_build (facts : List Fact) (internal : Classifier) :
    (build facts internal).imports =
      firstSeen ((relationsOf facts).filterMap fun told =>
        (importOf? internal told).filter (build facts internal).joinsModules) := by
  rw [← List.filter_filterMap, ← flatMap_importsOf]
  rfl

/-- The edges stand in the order in which they are told first. -/
theorem pairwise_imports (facts : List Fact) (internal : Classifier) :
    (build facts internal).imports.Pairwise fun e e' =>
      ∃ earlier told later, relationsOf facts = earlier ++ told :: later ∧
        Tells internal told e.1 e.2 ∧ ∀ other ∈ earlier, ¬Tells internal other e'.1 e'.2 := by
  rw [imports_build]
  refine (pairwise_firstSeenAfter_filterMap _ [] _).imp_of_mem fun {e e'} _ he' h => ?_
  obtain ⟨earlier, told, later, hsplit, htold, hearlier⟩ := h
  refine ⟨earlier, told, later, hsplit, ?_, fun other hother htells => hearlier other hother ?_⟩
  · exact importOf?_eq_some_iff.mp (Option.filter_eq_some_iff.mp htold).1
  · -- the later edge joins modules, so what tells of it counts
    obtain ⟨_, -, hlater⟩ := List.mem_filterMap.mp (mem_firstSeenAfter.mp he').1
    have hjoins := (Option.filter_eq_some_iff.mp hlater).2
    exact Option.filter_eq_some_iff.mpr ⟨importOf?_eq_some_iff.mpr htells, hjoins⟩

/-- No module is counted twice. -/
theorem nodup_importedWithin (facts : List Fact) (internal : Classifier) (members : List String)
    (name : String) : ((build facts internal).importedWithin members name).Nodup := by
  unfold importedWithin importedBy
  refine List.Nodup.filter _ (List.Nodup.map_on ?_ ((nodup_firstSeenAfter _ _).filter _))
  intro e he e' he' htarget
  have hsource : e.1 = name := eq_of_beq (List.mem_filter.mp he).2
  have hsource' : e'.1 = name := eq_of_beq (List.mem_filter.mp he').2
  exact Prod.ext (hsource.trans hsource'.symm) htarget

/-- The imports of a module stand in the order in which they are told first. -/
theorem pairwise_importedWithin (facts : List Fact) (internal : Classifier) (members : List String)
    (name : String) :
    ((build facts internal).importedWithin members name).Pairwise
      (ToldBefore facts internal name) := by
  unfold importedWithin importedBy
  refine List.Pairwise.filter _ (List.pairwise_map.mpr ?_)
  refine ((pairwise_imports facts internal).filter _).imp_of_mem fun {e e'} he he' h => ?_
  have hsource : e.1 = name := eq_of_beq (List.mem_filter.mp he).2
  have hsource' : e'.1 = name := eq_of_beq (List.mem_filter.mp he').2
  rwa [hsource, hsource'] at h

/-! ### Where a module is declared -/

/-- The fact that stands for a module is the first one of it. -/
theorem find?_modules (internal : Classifier) {name : String} (h : IsModuleName facts name) :
    ∃ f, facts.find? (fun g => isModule g && g.name == name) = some f ∧
      (build facts internal).modules.find? (·.name == name) = some f := by
  obtain ⟨f, hf, hname⟩ := List.mem_map.mp ((mem_names facts internal).mpr h)
  cases hfind : (build facts internal).modules.find? (·.name == name) with
  | none => exact absurd (beq_iff_eq.mpr hname) (List.find?_eq_none.mp hfind f hf)
  | some first =>
    obtain ⟨name', -, hfirst⟩ := List.mem_filterMap.mp (List.mem_of_find?_eq_some hfind)
    have hsame : first.name = name := by simpa using List.find?_some hfind
    have hnamed := List.find?_some hfirst
    have hsame' : first.name = name' := eq_of_beq (Bool.and_eq_true_iff.mp hnamed).2
    exact ⟨first, hsame ▸ hsame' ▸ hfirst, rfl⟩

end ImportGraph

/-- The first fact that declares a module. -/
def DeclaredFirst (facts : List Fact) (name : String) (f : Fact) : Prop :=
  ∃ before after, facts = before ++ f :: after ∧ f.kind = .codeModule ∧ f.name = name ∧
    ∀ earlier ∈ before, ¬(earlier.kind = .codeModule ∧ earlier.name = name)

theorem declaredFirst_of_find? {name : String} (hname : name ≠ "") {f : Fact}
    (h : facts.find? (fun g => ImportGraph.isModule g && g.name == name) = some f) :
    DeclaredFirst facts name f := by
  have hmodule (g : Fact) : (ImportGraph.isModule g && g.name == name) = true ↔
      g.kind = .codeModule ∧ g.name = name := by
    rw [Bool.and_eq_true, ImportGraph.isModule_iff, beq_iff_eq]
    constructor
    · rintro ⟨hg, hsame⟩
      exact ⟨hg.1, hsame⟩
    · rintro ⟨hkind, hsame⟩
      exact ⟨⟨hkind, hsame ▸ hname⟩, hsame⟩
  obtain ⟨hf, before, after, hsplit, hbefore⟩ := List.find?_eq_some_iff_append.mp h
  obtain ⟨hkind, hsame⟩ := (hmodule f).mp hf
  refine ⟨before, after, hsplit, hkind, hsame, fun earlier he hearlier => ?_⟩
  have hnot := hbefore earlier he
  rw [(hmodule earlier).mpr hearlier] at hnot
  cases hnot

/-! ### The result -/

/-- What the evidence for a member of a finding says. -/
structure Attests (facts : List Fact) (internal : Classifier) (members : List String)
    (name : String) (evidence : Evidence) : Prop where
  moduleName : evidence.moduleName = name
  /-- It shows where the module is declared first. -/
  declared : ∃ f, DeclaredFirst facts name f ∧ evidence.file = f.file ∧ evidence.line = f.line
  /-- It lists the other members that the module imports, at least one, each once and in the order
  in which they are told first. -/
  imported : ∃ imported : List String,
    evidence.detail = "imports " ++ ", ".intercalate imported ∧
    (∀ other, other ∈ imported ↔
      other ∈ members ∧ other ≠ name ∧ Imports facts internal name other) ∧
    imported.Nodup ∧ imported.Pairwise (ToldBefore facts internal name) ∧ imported ≠ []

/-- A member of a finding imports another one. -/
theorem importedWithin_ne_nil {finding : Finding} (h : finding ∈ detect facts internal)
    (ha : a ∈ finding.modules) :
    (ImportGraph.build facts internal).importedWithin finding.modules a ≠ [] := by
  obtain ⟨b, hb, hne⟩ := exists_other_member h ha
  obtain ⟨x, -, rfl, y, hy, hyne, himport⟩ :=
    exists_import_across h (p := (· = a)) ha hb rfl hne
  refine List.ne_nil_of_mem (ImportGraph.mem_importedWithin.mpr ⟨?_, hyne, hy⟩)
  exact ImportGraph.mem_imports.mpr himport

theorem isModuleName_of_mem {finding : Finding} (h : finding ∈ detect facts internal)
    (ha : a ∈ finding.modules) : IsModuleName facts a := by
  obtain ⟨b, hb, hne⟩ := exists_other_member h ha
  exact (((mem_modules_iff h ha).mp hb).1.isModuleName hne.symm).1

theorem attests {finding : Finding} (h : finding ∈ detect facts internal)
    (ha : a ∈ finding.modules) :
    Attests facts internal finding.modules a
      ((ImportGraph.build facts internal).evidence finding.modules a) where
  moduleName := ImportGraph.moduleName_evidence _ _ a
  declared := by
    have hmodule := isModuleName_of_mem h ha
    obtain ⟨f, hfirst, hfind⟩ := ImportGraph.find?_modules internal hmodule
    refine ⟨f, declaredFirst_of_find? hmodule.1 hfirst, ?_⟩
    unfold ImportGraph.evidence
    rw [hfind]
    exact ⟨rfl, rfl⟩
  imported := by
    refine ⟨_, ImportGraph.detail_evidence _ _ a, fun other => ?_,
      ImportGraph.nodup_importedWithin facts internal _ a,
      ImportGraph.pairwise_importedWithin facts internal _ a, importedWithin_ne_nil h ha⟩
    rw [ImportGraph.mem_importedWithin, ImportGraph.mem_imports]
    constructor
    · rintro ⟨himport, hne, hother⟩
      exact ⟨hother, hne, himport⟩
    · rintro ⟨hother, hne, himport⟩
      exact ⟨himport, hne, hother⟩

/-- **The evidence for a finding** goes through its members one by one. For each it shows where the
module is declared first, and lists the other members that the module imports: each of them once, in
the order in which the facts tell of them first, and never none. -/
theorem evidence_of_finding (facts : List Fact) (internal : Classifier) :
    ∀ finding ∈ detect facts internal,
      List.Forall₂ (Attests facts internal finding.modules) finding.modules finding.evidence := by
  intro finding h
  rw [evidence_detect h, List.forall₂_map_right_iff, List.forall₂_same]
  exact fun name hname => attests h hname

/-- A module that imports two others, of which one is told to be imported again and again, and the
other one first, by the record of a file. Both import the first module back. -/
def gateway : List Fact :=
  [((Fact.of .dependency "main").withFile "gateway/main.go" 1).withRelation .imports "orders",
    ((((Fact.of .codeModule "gateway").withFile "gateway/doc.go" 7).withRelation .imports
      "users").withRelation .imports "orders").withRelation .dependsOn "users",
    (Fact.of .codeModule "users").withRelation .dependsOn "gateway",
    (Fact.of .codeModule "orders").withRelation .imports "gateway"]

theorem modules_gateway :
    (detect gateway looksInternal).map (·.modules) = [["gateway", "orders", "users"]] := by
  have hnodes : (ImportGraph.build gateway looksInternal).toDirected.nodes =
      [⟨0, by decide⟩, ⟨1, by decide⟩, ⟨2, by decide⟩] := by decide
  rw [modules_detect, componentNodes_of_first 7 hnodes (by decide) (by decide)]
  decide

theorem evidence_of_finding_gateway :
    ∃ finding ∈ detect gateway looksInternal,
      finding.modules = ["gateway", "orders", "users"] ∧
      finding.evidence.map (fun e => (e.line, e.detail)) =
        [(7, "imports orders, users"), (0, "imports gateway"), (0, "imports gateway")] ∧
      List.Forall₂ (Attests gateway looksInternal finding.modules) finding.modules
        finding.evidence := by
  obtain ⟨finding, h, hmodules⟩ : ∃ finding ∈ detect gateway looksInternal,
      finding.modules = ["gateway", "orders", "users"] :=
    List.mem_map.mp (modules_gateway ▸ List.mem_singleton_self _)
  refine ⟨finding, h, hmodules, ?_, evidence_of_finding gateway looksInternal finding h⟩
  rw [evidence_detect h, hmodules]
  decide

end ArchFacts.Cycle
