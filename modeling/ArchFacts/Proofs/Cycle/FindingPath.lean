import ArchFacts.Proofs.Cycle.Discovery
import ArchFacts.Proofs.Cycle.Findings
import Mathlib.Data.List.Chain

/-!
# The path of a finding

A finding shows its members as a path: in the order in which they were found, and then the first one
again. The order is that of a search, which goes back when a member imports nothing new, so a member
need not import the one shown next (`path_not_a_cycle`). It does exactly if it imports any of those
shown later, and the path is a cycle of imports if no member imports two others (`path_of_finding`).
-/

namespace ArchFacts.Cycle

open DirectedGraph

variable {facts : List Fact} {internal : Classifier} {finding : Finding}

/-! ### Neighbours in the path -/

/-- The path is that of the members and back to the first, and the description spells it out. -/
theorem path_eq (h : finding ∈ detect facts internal) :
    finding.path = finding.modules ++ finding.modules.take 1 ∧
      finding.description =
        "Modules import each other in a loop: " ++ " -> ".intercalate finding.path := by
  obtain ⟨members, -, rfl⟩ := List.mem_map.mp h
  exact ⟨rfl, rfl⟩

/-- A member imports the next one exactly if it imports any that comes after. -/
theorem imports_next_iff (h : finding ∈ detect facts internal) {before after : List String}
    {a b : String} (hsplit : finding.modules = before ++ a :: b :: after) :
    Imports facts internal a b ↔ ∃ later ∈ b :: after, Imports facts internal a later := by
  obtain ⟨c, hc, -, hmodules⟩ := component_of_finding h
  rw [hmodules] at hsplit
  obtain ⟨earlier, fromFirst, hc', rfl, hfirst⟩ := List.map_eq_append_iff.mp hsplit
  obtain ⟨v, fromSecond, rfl, rfl, hsecond⟩ := List.map_eq_cons_iff.mp hfirst
  obtain ⟨w, later, rfl, rfl, rfl⟩ := List.map_eq_cons_iff.mp hsecond
  rw [← ImportGraph.adjacent_iff, component_neighbours hc hc', ← List.map_cons]
  simp only [List.mem_map, exists_exists_and_eq_and, ImportGraph.adjacent_iff]

/-! ### Members that import one other -/

/-- No module among some imports two others of them. -/
def Unforked (facts : List Fact) (internal : Classifier) (members : List String) : Prop :=
  ∀ a ∈ members, ∀ b ∈ members, ∀ c ∈ members, b ≠ a → c ≠ a →
    Imports facts internal a b → Imports facts internal a c → b = c

instance (facts : List Fact) (internal : Classifier) : DecidableRel (Imports facts internal) :=
  fun _ _ => decidable_of_iff _ ImportGraph.mem_imports

instance (facts : List Fact) (internal : Classifier) (members : List String) :
    Decidable (Unforked facts internal members) :=
  inferInstanceAs <| Decidable <| ∀ a ∈ members, ∀ b ∈ members, ∀ c ∈ members, b ≠ a → c ≠ a →
    Imports facts internal a b → Imports facts internal a c → b = c

/-- Some import leads out of any part of the members that is not all of them. -/
theorem exists_import_across (h : finding ∈ detect facts internal) {p : String → Prop}
    {a b : String} (ha : a ∈ finding.modules) (hb : b ∈ finding.modules) (hpa : p a) (hpb : ¬p b) :
    ∃ x ∈ finding.modules, p x ∧ ∃ y ∈ finding.modules, ¬p y ∧ Imports facts internal x y := by
  have hchain := ((mem_modules_iff h ha).mp hb).1
  induction hchain using Relation.ReflTransGen.head_induction_on with
  | refl => exact absurd hpa hpb
  | @head a next himport hrest ih =>
    have hback := ((mem_modules_iff h ha).mp hb).2
    have hnext : next ∈ finding.modules :=
      (mem_modules_iff h ha).mpr ⟨.single himport, hrest.trans hback⟩
    by_cases hp : p next
    · exact ih hnext hp
    · exact ⟨a, ha, hpa, next, hnext, hp, himport⟩

/-- A member that is not the last stands right before another one. -/
theorem exists_next {before : List String} {x : String} (hx : x ∈ before) (last : String) :
    ∃ earlier next later, before ++ [last] = earlier ++ x :: next :: later := by
  obtain ⟨earlier, rest, rfl⟩ := List.append_of_mem hx
  cases rest with
  | nil => exact ⟨earlier, last, [], by simp⟩
  | cons next later => exact ⟨earlier, next, later ++ [last], by simp⟩

/-- A member that imports the next one imports no other. -/
theorem Unforked.eq_next (hone : Unforked facts internal finding.modules)
    (h : finding ∈ detect facts internal) {earlier later : List String} {x next y : String}
    (hsplit : finding.modules = earlier ++ x :: next :: later)
    (himport : Imports facts internal x next) (hy : y ∈ finding.modules) (hne : y ≠ x)
    (hxy : Imports facts internal x y) : y = next := by
  have hnodup := nodup_modules h
  rw [hsplit] at hnodup
  have hnext : next ≠ x := by
    rintro rfl
    exact (List.nodup_cons.mp (List.nodup_append.mp hnodup).2.1).1 List.mem_cons_self
  exact hone x (by simp [hsplit]) y hy next (by simp [hsplit]) hne hnext hxy himport

/-- Where the members up to `a` import each other in turn, `a` imports the next one. -/
theorem Unforked.imports_next (hone : Unforked facts internal finding.modules)
    (h : finding ∈ detect facts internal) {before after : List String} {a b : String}
    (hsplit : finding.modules = before ++ a :: b :: after)
    (hchain : (before ++ [a]).IsChain (Imports facts internal)) : Imports facts internal a b := by
  have hmodules : finding.modules = (before ++ [a]) ++ b :: after := by simp [hsplit]
  have hnodup := nodup_modules h
  rw [hmodules] at hnodup
  have hdisjoint := List.disjoint_of_nodup_append hnodup
  -- an import leads from the members up to `a` to one that comes after
  obtain ⟨x, -, hx, y, hy, hy', hxy⟩ := exists_import_across h (p := (· ∈ before ++ [a]))
    (by simp [hsplit]) (by simp [hsplit]) (List.mem_append_right before List.mem_cons_self)
    fun hb => hdisjoint hb List.mem_cons_self
  have hlater : y ∈ b :: after := (List.mem_append.mp (hmodules ▸ hy)).resolve_left hy'
  rcases List.mem_append.mp hx with hbefore | ha
  · -- the members before `a` import the next one only
    obtain ⟨earlier, next, later, hnext⟩ := exists_next hbefore a
    have himport : Imports facts internal x next :=
      List.isChain_iff_forall_rel_of_append_cons_cons.mp hchain hnext
    have hall : finding.modules = earlier ++ x :: next :: (later ++ b :: after) := by
      rw [hmodules, hnext]
      simp
    obtain rfl := hone.eq_next h hall himport hy (fun hyx => hy' (hyx ▸ hx)) hxy
    exact absurd (hnext ▸ by simp) hy'
  · obtain rfl := List.mem_singleton.mp ha
    exact (imports_next_iff h hsplit).mpr ⟨y, hlater, hxy⟩

/-- Where no member imports two others, each imports the next one. -/
theorem Unforked.isChain_modules (hone : Unforked facts internal finding.modules)
    (h : finding ∈ detect facts internal) {shown rest : List String}
    (hsplit : finding.modules = shown ++ rest) : shown.IsChain (Imports facts internal) := by
  induction shown using List.reverseRecOn generalizing rest with
  | nil => exact List.isChain_nil
  | append_singleton shown b ih =>
    have hshown : finding.modules = shown ++ b :: rest := by simpa using hsplit
    have hchain := ih hshown
    refine hchain.append (List.isChain_singleton b) fun a ha b' hb => ?_
    obtain rfl : b = b' := Option.some.inj hb
    obtain ⟨before, rfl⟩ := List.getLast?_eq_some_iff.mp ha
    exact hone.imports_next h (by simpa using hshown) hchain

/-- Where no member imports two others, the last one imports the first. -/
theorem Unforked.imports_first (hone : Unforked facts internal finding.modules)
    (h : finding ∈ detect facts internal) {first last : String} {before rest : List String}
    (hfirst : finding.modules = first :: rest) (hlast : finding.modules = before ++ [last]) :
    Imports facts internal last first := by
  have hchain := hone.isChain_modules h (List.append_nil _).symm
  obtain ⟨other, hother, hne⟩ := exists_other_member h (a := first) (by simp [hfirst])
  obtain ⟨x, hx, hxne, y, -, hy, hxy⟩ := exists_import_across h (p := (· ≠ first)) hother
    (by simp [hfirst]) hne (not_not_intro rfl)
  obtain rfl := not_not.mp hy
  rcases List.mem_append.mp (hlast ▸ hx) with hbefore | hx
  · -- a member before the last imports the next one only, which is not the first
    obtain ⟨earlier, next, later, hnext⟩ := exists_next hbefore last
    rw [← hlast] at hnext
    have himport := List.isChain_iff_forall_rel_of_append_cons_cons.mp hchain hnext
    obtain rfl := hone.eq_next h hnext himport (by simp [hfirst]) hxne.symm hxy
    have hnodup := nodup_modules h
    cases earlier with
    | nil => exact absurd (List.cons.inj (hnext.symm.trans hfirst)).1 hxne
    | cons head earlier =>
      obtain rfl : head = y := (List.cons.inj (hnext.symm.trans hfirst)).1
      rw [hnext] at hnodup
      exact absurd (by simp) (List.nodup_cons.mp hnodup).1
  · obtain rfl := List.mem_singleton.mp hx
    exact hxy

theorem Unforked.isChain_path (hone : Unforked facts internal finding.modules)
    (h : finding ∈ detect facts internal) : finding.path.IsChain (Imports facts internal) := by
  rw [(path_eq h).1]
  refine (hone.isChain_modules h (List.append_nil _).symm).append ?_ fun last hlast first hfirst => ?_
  · cases finding.modules with
    | nil => exact List.isChain_nil
    | cons first rest => exact List.isChain_singleton first
  · obtain ⟨before, hlast⟩ := List.getLast?_eq_some_iff.mp hlast
    cases hmodules : finding.modules with
    | nil =>
      rw [hmodules] at hfirst
      cases hfirst
    | cons first' rest =>
      rw [hmodules] at hfirst
      obtain rfl : first' = first := Option.some.inj hfirst
      exact hone.imports_first h hmodules hlast

/-- **What the path of a finding tells**: it leads through the members and back to the first, and
the description spells it out. A member imports the one shown next exactly if it imports any of those
shown later. If no member imports two others, the path is a cycle of imports. -/
theorem path_of_finding (facts : List Fact) (internal : Classifier) :
    ∀ finding ∈ detect facts internal,
      finding.path = finding.modules ++ finding.modules.take 1 ∧
      finding.description =
        "Modules import each other in a loop: " ++ " -> ".intercalate finding.path ∧
      (∀ before a b after, finding.modules = before ++ a :: b :: after →
        (Imports facts internal a b ↔ ∃ later ∈ b :: after, Imports facts internal a later)) ∧
      (Unforked facts internal finding.modules →
        finding.path.IsChain (Imports facts internal)) := by
  intro finding h
  obtain ⟨hpath, hdescription⟩ := path_eq h
  exact ⟨hpath, hdescription, fun _ _ _ _ => imports_next_iff h, fun hone => hone.isChain_path h⟩

/-- Three modules that import each other in a circle. -/
def circle : List Fact :=
  [(Fact.of .codeModule "a").withRelation .imports "b",
    (Fact.of .codeModule "b").withRelation .imports "c",
    (Fact.of .codeModule "c").withRelation .imports "a"]

theorem modules_circle : (detect circle looksInternal).map (·.modules) = [["a", "b", "c"]] := by
  have hnodes : (ImportGraph.build circle looksInternal).toDirected.nodes =
      [⟨0, by decide⟩, ⟨1, by decide⟩, ⟨2, by decide⟩] := by decide
  rw [modules_detect, componentNodes_of_first 6 hnodes (by decide) (by decide)]
  decide

theorem path_of_finding_circle :
    ∃ finding ∈ detect circle looksInternal,
      finding.modules = [] ++ "a" :: "b" :: ["c"] ∧
      (Imports circle looksInternal "a" "b" ↔
        ∃ later ∈ ["b", "c"], Imports circle looksInternal "a" later) ∧
      Unforked circle looksInternal finding.modules ∧
      finding.path.IsChain (Imports circle looksInternal) := by
  obtain ⟨finding, h, hmodules⟩ : ∃ finding ∈ detect circle looksInternal,
      finding.modules = ["a", "b", "c"] :=
    List.mem_map.mp (modules_circle ▸ List.mem_singleton_self _)
  have hone : Unforked circle looksInternal finding.modules := by
    rw [hmodules]
    decide
  obtain ⟨-, -, hnext, hpath⟩ := path_of_finding circle looksInternal finding h
  exact ⟨finding, h, hmodules, hnext [] "a" "b" ["c"] hmodules, hone, hpath hone⟩

/-- Three modules on two circles: one that imports both others, of which one imports it and the
other one imports that one. -/
def branching : List Fact :=
  [((Fact.of .codeModule "a").withRelation .imports "b").withRelation .imports "c",
    (Fact.of .codeModule "b").withRelation .imports "a",
    (Fact.of .codeModule "c").withRelation .imports "b"]

theorem modules_branching :
    (detect branching looksInternal).map (·.modules) = [["a", "b", "c"]] := by
  have hnodes : (ImportGraph.build branching looksInternal).toDirected.nodes =
      [⟨0, by decide⟩, ⟨1, by decide⟩, ⟨2, by decide⟩] := by decide
  rw [modules_detect, componentNodes_of_first 7 hnodes (by decide) (by decide)]
  decide

/-- The path need not be a cycle of imports: where a member imports two others, it may lead from one
of these to the other, which it does not import. -/
theorem path_not_a_cycle :
    ¬∀ (facts : List Fact) (internal : Classifier), ∀ finding ∈ detect facts internal,
      finding.path.IsChain (Imports facts internal) := by
  intro hall
  obtain ⟨finding, h, hmodules⟩ : ∃ finding ∈ detect branching looksInternal,
      finding.modules = ["a", "b", "c"] :=
    List.mem_map.mp (modules_branching ▸ List.mem_singleton_self _)
  have hpath := hall branching looksInternal finding h
  rw [(path_eq h).1, hmodules] at hpath
  exact absurd hpath (by decide)

end ArchFacts.Cycle
