import ArchFacts.Proofs.Graph.Bridges
import ArchFacts.Proofs.Text.Slashes

/-!
# Which modules have a bridge

The walk upwards from a target stops at the first module, and it comes past all paths that stand
around the target, the longest first. So it ends at the longest name of a module that stands around
the target (`nearestModule_eq_some_iff`), whatever slashes there are, and without an answer only if
no module stands around it.

Two modules have a bridge exactly if a fact records that a file in the directory of the one imports
a target in the other one (`bridge_iff`). The fact that records it has to have a name: the imports
that a fact without a name records are passed over (`nameless_record_passed_over`).
-/

namespace ArchFacts.Graph

open SlashPath (Around parentChars? trimSlashes)

variable {facts : List Fact} {modules : List String} {path found : List Char}

/-! ### The walk upwards -/

/-- Where a path is no module, the modules around it are those around the path above. -/
theorem around_above (hnamed : "" ∉ modules) (hpath : String.ofList path ∉ modules)
    {other : List Char} (hother : String.ofList other ∈ modules) (h : Around other path) :
    ∃ above, parentChars? path = some above ∧ Around other above := by
  refine SlashPath.parentChars?_of_around h ?_ ?_
  · rintro rfl
    exact hpath hother
  · rintro rfl
    exact hnamed hother

/-- The walk finds a module around the path, and none around it is longer. -/
theorem longest_of_enclosing (hnamed : "" ∉ modules) (h : enclosing modules path = some found) :
    Around found path ∧
      ∀ other, String.ofList other ∈ modules → Around other path → other.length ≤ found.length := by
  fun_induction enclosing modules path with
  | case1 path hmem =>
    obtain rfl := Option.some.inj h
    exact ⟨.refl path, fun other _ haround => haround.isPrefix.length_le⟩
  | case2 path hmem parent hparent ih =>
    obtain ⟨haround, hlongest⟩ := ih h
    refine ⟨haround.of_parentChars? hparent, fun other hother hpath => ?_⟩
    obtain ⟨above, habove, hother'⟩ := around_above hnamed hmem hother hpath
    obtain rfl : above = parent := Option.some.inj (habove.symm.trans hparent)
    exact hlongest other hother hother'
  | case3 path hmem htop => cases h

/-- The walk finds a module if one stands around the path. -/
theorem exists_enclosing (hnamed : "" ∉ modules) {other : List Char}
    (hother : String.ofList other ∈ modules) (h : Around other path) :
    ∃ found, enclosing modules path = some found := by
  fun_induction enclosing modules path with
  | case1 path hmem => exact ⟨path, rfl⟩
  | case2 path hmem parent hparent ih =>
    obtain ⟨above, habove, hother'⟩ := around_above hnamed hmem hother h
    obtain rfl : above = parent := Option.some.inj (habove.symm.trans hparent)
    exact ih hother'
  | case3 path hmem htop =>
    obtain ⟨above, habove, -⟩ := around_above hnamed hmem hother h
    rw [htop] at habove
    cases habove

/-- The nearest module is the longest name of a module that stands around the target. -/
theorem nearestModule_eq_some_iff (hnamed : "" ∉ modules) {target name : String} :
    nearestModule modules target = some name ↔
      name ∈ modules ∧ Around name.toList (trimSlashes target.toList) ∧
        ∀ other ∈ modules, Around other.toList (trimSlashes target.toList) →
          other.toList.length ≤ name.toList.length := by
  unfold nearestModule
  rw [Option.map_eq_some_iff]
  constructor
  · rintro ⟨found, hfound, rfl⟩
    obtain ⟨haround, hlongest⟩ := longest_of_enclosing hnamed hfound
    rw [String.toList_ofList]
    refine ⟨enclosing_mem hfound, haround, fun other hother => hlongest other.toList ?_⟩
    rwa [String.ofList_toList]
  · rintro ⟨hname, haround, hlongest⟩
    rw [← String.ofList_toList (s := name)] at hname
    obtain ⟨found, hfound⟩ := exists_enclosing hnamed hname haround
    obtain ⟨haround', hlongest'⟩ := longest_of_enclosing hnamed hfound
    -- neither of the two is longer
    have hle := hlongest (String.ofList found) (enclosing_mem hfound)
    rw [String.toList_ofList] at hle
    have hlength : found.length = name.toList.length :=
      Nat.le_antisymm (hle haround') (hlongest' name.toList hname haround)
    obtain rfl := haround'.eq_of_length haround hlength
    exact ⟨_, hfound, String.ofList_toList⟩

/-- **The nearest module is the longest around the target**: of the names of modules that are the
target without the slashes at its end, or stand before a slash in it, the longest one; and there is
no nearest module exactly if no name of a module does. -/
theorem nearestModule_longest (modules : List String) (hnamed : "" ∉ modules) (target : String) :
    ((trimSlashes target.toList).getLast? ≠ some '/' ∧
      ∃ slashes, target.toList = trimSlashes target.toList ++ List.replicate slashes '/') ∧
    (∀ name, nearestModule modules target = some name ↔
      name ∈ modules ∧ Around name.toList (trimSlashes target.toList) ∧
        ∀ other ∈ modules, Around other.toList (trimSlashes target.toList) →
          other.toList.length ≤ name.toList.length) ∧
    (nearestModule modules target = none ↔
      ∀ name ∈ modules, ¬Around name.toList (trimSlashes target.toList)) := by
  refine ⟨SlashPath.exists_trimSlashes target.toList, fun name => nearestModule_eq_some_iff hnamed,
    fun hnone name hname haround => ?_, fun h => ?_⟩
  · rw [← String.ofList_toList (s := name)] at hname
    obtain ⟨found, hfound⟩ := exists_enclosing hnamed hname haround
    rw [nearestModule, hfound] at hnone
    cases hnone
  · cases hfound : nearestModule modules target with
    | none => rfl
    | some name =>
      obtain ⟨hname, haround, -⟩ := (nearestModule_eq_some_iff hnamed).mp hfound
      exact absurd haround (h name hname)

/-- Slashes at the start, doubled ones and ones at the end: two of the modules stand around the
target, and the longer one of them ends in a slash itself. -/
theorem nearestModule_longest_slashes :
    "" ∉ ["a", "/a", "/a/", "/a//"] ∧
      nearestModule ["a", "/a", "/a/", "/a//"] "/a//b//" = some "/a/" ∧
      nearestModule ["a", "/a", "/a/", "/a//"] "//" = none := by
  have hnamed : "" ∉ ["a", "/a", "/a/", "/a//"] := by decide
  exact ⟨hnamed, ((nearestModule_longest _ hnamed "/a//b//").2.1 "/a/").mpr (by decide),
    (nearestModule_longest _ hnamed "//").2.2.mpr (by decide)⟩

/-! ### Bridges -/

/-- Of the names of modules that are the target or stand before one of its slashes, the slashes at
its end aside, `name` is the longest. -/
def NearestAround (facts : List Fact) (target name : String) : Prop :=
  IsModuleName facts name ∧ Around name.toList (trimSlashes target.toList) ∧
    ∀ other, IsModuleName facts other → Around other.toList (trimSlashes target.toList) →
      other.toList.length ≤ name.toList.length

theorem nearestModule_moduleNames_iff {target name : String} :
    nearestModule (moduleNames facts) target = some name ↔ NearestAround facts target name := by
  have hnamed : "" ∉ moduleNames facts := fun h => (mem_moduleNames.mp h).1 rfl
  rw [nearestModule_eq_some_iff hnamed]
  simp only [mem_moduleNames]
  rfl

/-- A fact records that a file in the directory `a` imports a target that is in module `b`. -/
def RecordsInto (facts : List Fact) (f : Fact) (a b : String) : Prop :=
  f.kind = .dependency ∧ SlashPath.containingDir f.file = a ∧
    ∃ r ∈ f.relations, r.kind = .imports ∧ NearestAround facts r.target b

/-- The ends of the bridges that a fact asks for are those that it records an import between. -/
theorem mem_bridges_moduleNames {f : Fact} {a b : String} :
    (a, b) ∈ bridges (moduleNames facts) f ↔
      a ≠ b ∧ IsModuleName facts a ∧ IsModuleName facts b ∧ RecordsInto facts f a b := by
  rw [mem_bridges]
  simp only [nearestModule_moduleNames_iff, mem_moduleNames]
  constructor
  · rintro ⟨hkind, hsource, ha, hne, r, hr, himport, hnearest⟩
    exact ⟨hne, ha, hnearest.1, hkind, hsource, r, hr, himport, hnearest⟩
  · rintro ⟨hne, ha, -, hkind, hsource, hrecord⟩
    exact ⟨hkind, hsource, ha, hne, hrecord⟩

/-- **The bridges are those that the records ask for**: there is one from a module to another one
exactly if a fact with a name records that a file in the directory of the first imports a target
that is in the second. It is an import, listed at both of its ends. -/
theorem bridge_iff (facts : List Fact) (a b : String) (kind : RelationKind) :
    (⟨a, b, kind, true⟩ ∈ (build facts).outgoing a ↔
      kind = .imports ∧ a ≠ b ∧ IsModuleName facts a ∧ IsModuleName facts b ∧
        ∃ f ∈ facts, f.name ≠ "" ∧ RecordsInto facts f a b) ∧
    (⟨a, b, kind, true⟩ ∈ (build facts).incoming b ↔
      kind = .imports ∧ a ≠ b ∧ IsModuleName facts a ∧ IsModuleName facts b ∧
        ∃ f ∈ facts, f.name ≠ "" ∧ RecordsInto facts f a b) := by
  have hedge : ⟨a, b, kind, true⟩ ∈ (build facts).edges ↔
      kind = .imports ∧ a ≠ b ∧ IsModuleName facts a ∧ IsModuleName facts b ∧
        ∃ f ∈ facts, f.name ≠ "" ∧ RecordsInto facts f a b := by
    have hbridged : Bridged (moduleNames facts) (edgesOf facts) := .edgesOf facts
    have hends : hasBridge (edgesOf facts) (a, b) = true ↔
        ∃ f ∈ facts, f.name ≠ "" ∧ (a, b) ∈ bridges (moduleNames facts) f :=
      hasBridge_edgesOf
    simp only [mem_bridges_moduleNames] at hends
    constructor
    · intro hmem
      obtain rfl : kind = .imports := (hbridged.joins _ hmem rfl).1
      obtain ⟨f, hf, hname, hne, ha, hb, hrecord⟩ := hends.mp (hbridged.mem_iff.mp hmem)
      exact ⟨rfl, hne, ha, hb, f, hf, hname, hrecord⟩
    · rintro ⟨rfl, hne, ha, hb, f, hf, hname, hrecord⟩
      exact hbridged.mem_iff.mpr (hends.mpr ⟨f, hf, hname, hne, ha, hb, hrecord⟩)
  rw [mem_outgoing, mem_incoming]
  exact ⟨(and_iff_left rfl).trans hedge, (and_iff_left rfl).trans hedge⟩

/-- The record of a file's imports asks for a bridge only if it has a name: here a file in the
directory of one module imports the other module, and they have none. -/
theorem nameless_record_passed_over :
    ¬∀ (facts : List Fact) (a b : String),
      ⟨a, b, .imports, true⟩ ∈ (build facts).outgoing a ↔
        a ≠ b ∧ IsModuleName facts a ∧ IsModuleName facts b ∧
          ∃ f ∈ facts, RecordsInto facts f a b := by
  intro h
  let record : Fact := ((Fact.of .dependency "").withFile "a/x.go" 0).withRelation .imports "b"
  let facts : List Fact := [Fact.of .codeModule "a", Fact.of .codeModule "b", record]
  have ha : IsModuleName facts "a" := ⟨by decide, _, .head _, rfl, rfl⟩
  have hb : IsModuleName facts "b" := ⟨by decide, _, .tail _ (.head _), rfl, rfl⟩
  have haround : Around "b".toList (trimSlashes "b".toList) := Or.inl (by decide)
  have hnearest : NearestAround facts "b" "b" :=
    ⟨hb, haround, fun _ _ hother => Nat.le_trans hother.isPrefix.length_le (by decide)⟩
  have hrecord : RecordsInto facts record "a" "b" :=
    ⟨rfl, by decide, _, .head _, rfl, hnearest⟩
  have hmem := (h facts "a" "b").mpr
    ⟨by decide, ha, hb, record, .tail _ (.tail _ (.head _)), hrecord⟩
  revert hmem
  decide

end ArchFacts.Graph
