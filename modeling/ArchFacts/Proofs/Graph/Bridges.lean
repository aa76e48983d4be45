import ArchFacts.Proofs.Graph.Construction
import Mathlib.Data.List.Nodup

/-!
# Which edges the facts ask for

Adding facts one after the other adds the edges they declare and the bridges they ask for. A bridge
that is there already is not added again, so at which fact it comes in depends on the order of the
facts, but not whether it is there: two modules have a bridge exactly if some fact with a name asks
for it (`hasBridge_edgesOf`). So the facts in another order give the same edges in another order
(`edgesOf_perm`).
-/

namespace ArchFacts.Graph

variable {facts facts' : List Fact} {modules modules' : List String} {edges : List Edge}
  {ends : String × String}

/-! ### Declared edges -/

/-- The relations of a fact with a name are among the edges. -/
theorem mem_edgesOf_of_relation {f : Fact} {r : Relation} (hf : f ∈ facts) (hname : f.name ≠ "")
    (hr : r ∈ f.relations) : ⟨f.name, r.target, r.kind, false⟩ ∈ edgesOf facts := by
  have hmem : ⟨f.name, r.target, r.kind, false⟩ ∈ declared (edgesOf facts) := by
    rw [declared_edgesOf, List.mem_flatMap]
    exact ⟨f, List.mem_filter.mpr ⟨hf, decide_eq_true hname⟩, List.mem_map.mpr ⟨r, hr, rfl⟩⟩
  exact (List.mem_filter.mp hmem).1

/-! ### Bridges -/

theorem hasBridge_append (first second : List Edge) (ends : String × String) :
    hasBridge (first ++ second) ends = (hasBridge first ends || hasBridge second ends) :=
  List.any_append

/-- Declared edges are no bridges. -/
theorem hasBridge_declaredEdges (f : Fact) (ends : String × String) :
    hasBridge (declaredEdges f) ends = false := by
  refine List.any_eq_false.mpr fun e he => ?_
  obtain ⟨r, -, rfl⟩ := List.mem_map.mp he
  exact Bool.false_ne_true

theorem hasBridge_addBridge {added : String × String} :
    hasBridge (addBridge edges added) ends = true ↔ hasBridge edges ends = true ∨ ends = added := by
  unfold addBridge
  by_cases h : hasBridge edges added
  · rw [if_pos h]
    exact (or_iff_left_of_imp fun heq => heq ▸ h).symm
  · have hsingle : hasBridge [⟨added.1, added.2, .imports, true⟩] ends = true ↔ ends = added := by
      rw [Prod.ext_iff, eq_comm (a := ends.1), eq_comm (a := ends.2)]
      simp [hasBridge]
    rw [if_neg h, hasBridge_append, Bool.or_eq_true, hsingle]

theorem hasBridge_foldl_addBridge {joins : List (String × String)} :
    hasBridge (joins.foldl addBridge edges) ends = true ↔
      hasBridge edges ends = true ∨ ends ∈ joins := by
  induction joins generalizing edges with
  | nil => exact (or_iff_left List.not_mem_nil).symm
  | cons added rest ih => rw [List.foldl_cons, ih, hasBridge_addBridge, or_assoc, List.mem_cons]

theorem hasBridge_addFact {f : Fact} :
    hasBridge (addFact modules edges f) ends = true ↔
      hasBridge edges ends = true ∨ f.name ≠ "" ∧ ends ∈ bridges modules f := by
  unfold addFact
  by_cases h : f.name = ""
  · rw [if_pos h]
    exact (or_iff_left fun hf => hf.1 h).symm
  · rw [if_neg h, hasBridge_foldl_addBridge, hasBridge_append, hasBridge_declaredEdges,
      Bool.or_false]
    exact or_congr_right (and_iff_right h).symm

theorem hasBridge_foldl_addFact :
    hasBridge (facts.foldl (addFact modules) edges) ends = true ↔
      hasBridge edges ends = true ∨ ∃ f ∈ facts, f.name ≠ "" ∧ ends ∈ bridges modules f := by
  induction facts generalizing edges with
  | nil => simp
  | cons f rest ih => rw [List.foldl_cons, ih, hasBridge_addFact, or_assoc, List.exists_mem_cons_iff]

/-- Two modules have a bridge exactly if some fact with a name asks for it. -/
theorem hasBridge_edgesOf :
    hasBridge (edgesOf facts) ends = true ↔
      ∃ f ∈ facts, f.name ≠ "" ∧ ends ∈ bridges (moduleNames facts) f :=
  hasBridge_foldl_addFact.trans (or_iff_right Bool.false_ne_true)

/-- A bridge is an edge of its own form. -/
theorem Bridged.mem_iff (h : Bridged modules edges) :
    ⟨ends.1, ends.2, .imports, true⟩ ∈ edges ↔ hasBridge edges ends = true := by
  unfold hasBridge
  rw [List.any_eq_true]
  constructor
  · intro he
    exact ⟨_, he, by simp⟩
  · rintro ⟨e, he, hends⟩
    obtain ⟨source, target, kind, synthetic⟩ := e
    obtain ⟨⟨rfl, rfl⟩, rfl⟩ : (synthetic = true ∧ source = ends.1) ∧ target = ends.2 := by
      simpa using hends
    obtain rfl : kind = .imports := (h.joins _ he rfl).1
    exact he

/-! ### The order of the facts -/

theorem enclosing_of_mem {path : List Char} (h : String.ofList path ∈ modules) :
    enclosing modules path = some path := by
  rw [enclosing, if_pos h]

theorem enclosing_of_parent {path parent : List Char} (h : String.ofList path ∉ modules)
    (hparent : SlashPath.parentChars? path = some parent) :
    enclosing modules path = enclosing modules parent := by
  rw [enclosing, if_neg h]
  split
  · rename_i other hother
    rw [hparent] at hother
    rw [Option.some.inj hother]
  · rename_i hnone
    rw [hparent] at hnone
    cases hnone

theorem enclosing_of_top {path : List Char} (h : String.ofList path ∉ modules)
    (htop : SlashPath.parentChars? path = none) : enclosing modules path = none := by
  rw [enclosing, if_neg h]
  split
  · rename_i other hother
    rw [htop] at hother
    cases hother
  · rfl

/-- What counts of the modules is which names they have. -/
theorem enclosing_congr (h : ∀ name, name ∈ modules ↔ name ∈ modules') (path : List Char) :
    enclosing modules path = enclosing modules' path := by
  fun_induction enclosing modules path with
  | case1 path hmem => exact (enclosing_of_mem ((h _).mp hmem)).symm
  | case2 path hmem parent hparent ih =>
    exact ih.trans (enclosing_of_parent (mt (h _).mpr hmem) hparent).symm
  | case3 path hmem htop => exact (enclosing_of_top (mt (h _).mpr hmem) htop).symm

theorem mem_bridges_congr (h : ∀ name, name ∈ modules ↔ name ∈ modules') {f : Fact} :
    ends ∈ bridges modules f ↔ ends ∈ bridges modules' f := by
  have hnearest (target : String) : nearestModule modules target = nearestModule modules' target :=
    congrArg _ (enclosing_congr h _)
  simp only [mem_bridges, hnearest, h]

theorem isModuleName_perm (h : facts.Perm facts') {name : String} :
    IsModuleName facts name ↔ IsModuleName facts' name := by
  unfold IsModuleName
  simp only [h.mem_iff]

theorem hasBridge_edgesOf_perm (h : facts.Perm facts') :
    hasBridge (edgesOf facts) ends = true ↔ hasBridge (edgesOf facts') ends = true := by
  have hmodules (name : String) : name ∈ moduleNames facts ↔ name ∈ moduleNames facts' := by
    rw [mem_moduleNames, mem_moduleNames, isModuleName_perm h]
  rw [hasBridge_edgesOf, hasBridge_edgesOf]
  simp only [h.mem_iff, mem_bridges_congr hmodules]

/-- The bridges among some edges. -/
def bridging (edges : List Edge) : List Edge := edges.filter (·.synthetic)

theorem Bridged.nodup_bridging (h : Bridged modules edges) : (bridging edges).Nodup := by
  refine List.nodup_iff_count_le_one.mpr fun e => ?_
  by_cases he : e ∈ bridging edges
  · -- as often as there are bridges with the same ends, or fewer times
    have hsynthetic := (List.mem_filter.mp he).2
    refine Nat.le_trans ?_ (h.once (e.source, e.target))
    refine Nat.le_trans (List.filter_sublist.count_le e) ?_
    refine List.countP_mono_left fun e' _ heq => ?_
    rw [eq_of_beq heq]
    simpa [Edge.bridges] using hsynthetic
  · rw [List.count_eq_zero_of_not_mem he]
    exact Nat.zero_le 1

theorem mem_bridging_edgesOf {e : Edge} :
    e ∈ bridging (edgesOf facts) ↔
      e = ⟨e.source, e.target, .imports, true⟩ ∧
        hasBridge (edgesOf facts) (e.source, e.target) = true := by
  have hbridged : Bridged (moduleNames facts) (edgesOf facts) := .edgesOf facts
  rw [← hbridged.mem_iff]
  constructor
  · intro he
    obtain ⟨hmem, hsynthetic⟩ := List.mem_filter.mp he
    have hkind := (hbridged.joins e hmem hsynthetic).1
    obtain ⟨source, target, kind, synthetic⟩ := e
    obtain rfl : kind = .imports := hkind
    obtain rfl : synthetic = true := hsynthetic
    exact ⟨rfl, hmem⟩
  · rintro ⟨hform, hmem⟩
    rw [hform]
    exact List.mem_filter.mpr ⟨hmem, rfl⟩

theorem bridging_edgesOf_perm (h : facts.Perm facts') :
    (bridging (edgesOf facts)).Perm (bridging (edgesOf facts')) := by
  refine (List.perm_ext_iff_of_nodup (Bridged.edgesOf facts).nodup_bridging
    (Bridged.edgesOf facts').nodup_bridging).mpr fun e => ?_
  rw [mem_bridging_edgesOf, mem_bridging_edgesOf, hasBridge_edgesOf_perm h]

theorem declared_edgesOf_perm (h : facts.Perm facts') :
    (declared (edgesOf facts)).Perm (declared (edgesOf facts')) := by
  rw [declared_edgesOf, declared_edgesOf]
  exact (h.filter _).flatMap_right _

/-- The facts in another order give the same edges in another order. -/
theorem edgesOf_perm (h : facts.Perm facts') : (edgesOf facts).Perm (edgesOf facts') := by
  have hsplit (edges : List Edge) : (bridging edges ++ declared edges).Perm edges :=
    List.filter_append_perm _ edges
  exact (hsplit _).symm.trans
    (((bridging_edgesOf_perm h).append (declared_edgesOf_perm h)).trans (hsplit _))

end ArchFacts.Graph
