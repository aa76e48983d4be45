import ArchFacts.Proofs.Cycle.SearchInvariant
import Mathlib.Data.List.Nodup
import Mathlib.Logic.Function.Iterate

/-!
# The components partition the nodes

Between two roots no node is being explored and so none is on the stack: all that was found is in a
complete component. After the last root every node has been found. The components are settled, so
they are the classes of the nodes that reach each other.
-/

namespace ArchFacts.Cycle

open DirectedGraph

variable {g : DirectedGraph}

namespace Search

variable {s : Search g}

/-- A node that was found stays found. -/
theorem found_step {v : g.Node} (hv : v ∈ s.found) : v ∈ s.step.found := by
  obtain ⟨found, stack, frames, components⟩ := s
  match frames with
  | [] => exact hv
  | ⟨node, low, []⟩ :: outer =>
    unfold step
    dsimp only
    split <;> exact hv
  | ⟨node, low, next :: rest⟩ :: outer =>
    unfold step
    dsimp only
    split
    · exact List.mem_append_left _ hv
    · split <;> exact hv

theorem found_explore (s : Search g) {v : g.Node} (hv : v ∈ s.found) : v ∈ s.explore.found := by
  fun_induction explore s with
  | case1 s hs => exact hv
  | case2 s hs ih => exact ih (found_step hv)

theorem frames_explore (s : Search g) : s.explore.frames = [] := by
  fun_induction explore s with
  | case1 s hs => exact hs
  | case2 s hs ih => exact ih

theorem Invariant.explore (h : s.Invariant) : s.explore.Invariant := by
  fun_induction Search.explore s with
  | case1 s hs => exact h
  | case2 s hs ih => exact ih h.step

/-- What holds between two roots. -/
structure Rest (s : Search g) : Prop where
  invariant : s.Invariant
  frames : s.frames = []

namespace Rest

theorem start : (Search.start : Search g).Rest := ⟨invariant_start, rfl⟩

theorem stack (h : s.Rest) : s.stack = [] := by
  have hlinked := h.invariant.linked
  rw [h.frames] at hlinked
  exact hlinked.stack_eq_nil

/-- A root is explored with no frame outside of it. -/
theorem enter (h : s.Rest) {root : g.Node} (hroot : root ∉ s.found) : (s.enter root).Invariant := by
  have hlinked : Linked (s.found ++ [root]) s.frames s.stack := by
    rw [h.frames, h.stack]
    exact .nil
  have hparent : ∀ parent ∈ s.frames.head?, g.Adjacent parent.node root := by
    rw [h.frames]
    intro parent hp
    cases hp
  exact h.invariant.enter hroot hlinked hparent

/-- Exploring from a root comes to rest again. -/
theorem visit (h : s.Rest) (root : g.Node) : (s.visit root).Rest := by
  unfold Search.visit
  by_cases hroot : root ∈ s.found
  · rw [if_pos hroot]
    exact h
  · rw [if_neg hroot]
    exact ⟨(h.enter hroot).explore, frames_explore _⟩

end Rest

theorem found_visit {v root : g.Node} (hv : v ∈ s.found ∨ v = root) : v ∈ (s.visit root).found := by
  unfold visit
  by_cases hroot : root ∈ s.found
  · rw [if_pos hroot]
    rcases hv with hv | rfl
    · exact hv
    · exact hroot
  · rw [if_neg hroot]
    refine found_explore _ ?_
    rcases hv with hv | rfl
    · exact List.mem_append_left _ hv
    · exact List.mem_append_right _ List.mem_cons_self

/-- Trying some roots finds them all. -/
theorem rest_visit_all (h : s.Rest) (roots : List g.Node) :
    (roots.foldl visit s).Rest ∧
      ∀ v, v ∈ s.found ∨ v ∈ roots → v ∈ (roots.foldl visit s).found := by
  induction roots generalizing s with
  | nil =>
    refine ⟨h, fun v hv => ?_⟩
    rcases hv with hv | hv
    · exact hv
    · exact absurd hv List.not_mem_nil
  | cons root rest ih =>
    obtain ⟨hrest, hfound⟩ := ih (h.visit root)
    refine ⟨hrest, fun v hv => hfound v ?_⟩
    rcases hv with hv | hv
    · exact Or.inl (found_visit (Or.inl hv))
    · rcases List.mem_cons.mp hv with rfl | hv
      · exact Or.inl (found_visit (Or.inr rfl))
      · exact Or.inr hv

/-! ### Further invariants -/

/-- What every step keeps holds when exploring comes to an end. -/
theorem Invariant.explore_induction {p : Search g → Prop}
    (hstep : ∀ s : Search g, s.Invariant → p s → p s.step) (h : s.Invariant) (hs : p s) :
    p s.explore := by
  fun_induction Search.explore s with
  | case1 s hframes => exact hs
  | case2 s hframes ih => exact ih h.step (hstep s h hs)

/-- What every step keeps, and every beginning of a root, holds in the end. -/
theorem Rest.visit_all_induction {p : Search g → Prop}
    (henter : ∀ s : Search g, s.Rest → ∀ root ∉ s.found, p s → p (s.enter root))
    (hstep : ∀ s : Search g, s.Invariant → p s → p s.step) (h : s.Rest) (hs : p s)
    (roots : List g.Node) : p (roots.foldl Search.visit s) := by
  induction roots generalizing s with
  | nil => exact hs
  | cons root rest ih =>
    refine ih (h.visit root) ?_
    unfold Search.visit
    by_cases hroot : root ∈ s.found
    · rw [if_pos hroot]
      exact hs
    · rw [if_neg hroot]
      exact (h.enter hroot).explore_induction hstep (henter s h root hroot hs)

/-! ### One root -/

theorem iterate_step_of_frames (h : s.frames = []) (n : Nat) : step^[n] s = s :=
  Function.iterate_fixed (step_rest h) n

/-- Exploring takes as many steps as it needs, and more change nothing. -/
theorem explore_eq_iterate (n : Nat) (h : (step^[n] s).frames = []) : s.explore = step^[n] s := by
  induction n generalizing s with
  | zero =>
    rw [explore, dif_pos (show s.frames = [] from h)]
    rfl
  | succ n ih =>
    rw [explore]
    by_cases hs : s.frames = []
    · rw [dif_pos hs, iterate_step_of_frames hs]
    · rw [dif_neg hs]
      exact ih h

/-- Roots that were found before are passed over. -/
theorem visit_all_found {roots : List g.Node} (h : ∀ v ∈ roots, v ∈ s.found) :
    roots.foldl visit s = s := by
  induction roots with
  | nil => rfl
  | cons root rest ih =>
    rw [List.foldl_cons, visit, if_pos (h root List.mem_cons_self)]
    exact ih fun v hv => h v (List.mem_cons_of_mem root hv)

end Search

/-- Where all nodes are found from the first one, the search is over when it has been explored. -/
theorem componentNodes_of_first {root : g.Node} {rest : List g.Node} (n : Nat)
    (hnodes : g.nodes = root :: rest)
    (hframes : (Search.step^[n] (Search.start.enter root)).frames = [])
    (hrest : ∀ v ∈ rest, v ∈ (Search.step^[n] (Search.start.enter root)).found) :
    componentNodes g = (Search.step^[n] (Search.start.enter root)).components := by
  have hroot : Search.start.visit root = Search.step^[n] (Search.start.enter root) := by
    rw [Search.visit, if_neg (show root ∉ Search.start.found from List.not_mem_nil),
      Search.explore_eq_iterate n hframes]
  rw [componentNodes, hnodes, List.foldl_cons, hroot, Search.visit_all_found hrest]

/-! ### The result -/

/-- The whole search is at rest in the end, with every node found. -/
theorem rest_componentNodes (g : DirectedGraph) :
    ∃ s : Search g, s.Rest ∧ (∀ v, v ∈ s.found) ∧ s.components = componentNodes g := by
  obtain ⟨hrest, hfound⟩ := Search.rest_visit_all Search.Rest.start g.nodes
  exact ⟨_, hrest, fun v => hfound v (Or.inr (mem_nodes v)), rfl⟩

theorem settled_componentNodes (g : DirectedGraph) : g.Settled (componentNodes g) := by
  obtain ⟨s, hrest, -, hs⟩ := rest_componentNodes g
  exact hs ▸ hrest.invariant.settled

theorem perm_flatten_componentNodes (g : DirectedGraph) :
    ∃ found : List g.Node, found.Nodup ∧ (∀ v, v ∈ found) ∧
      (componentNodes g).flatten.Perm found := by
  obtain ⟨s, hrest, hfound, hs⟩ := rest_componentNodes g
  have hsplit := hrest.invariant.split
  rw [hrest.stack, List.append_nil, hs] at hsplit
  exact ⟨s.found, hrest.invariant.nodup, hfound, hsplit⟩

theorem nodup_flatten_componentNodes (g : DirectedGraph) : (componentNodes g).flatten.Nodup := by
  obtain ⟨found, hnodup, -, hperm⟩ := perm_flatten_componentNodes g
  exact hperm.nodup_iff.mpr hnodup

theorem mem_flatten_componentNodes (v : g.Node) : v ∈ (componentNodes g).flatten := by
  obtain ⟨found, -, hall, hperm⟩ := perm_flatten_componentNodes g
  exact hperm.mem_iff.mpr (hall v)

/-- **The components are the strongly connected components**: the lists of labels that are given out
are those of a partition of the nodes, in which every node stands exactly once and two nodes stand
in the same part exactly if each is reached from the other along edges. -/
theorem components_partition (g : DirectedGraph) :
    ∃ parts : List (List g.Node),
      components g = parts.map (·.map g.label) ∧
      (∀ part ∈ parts, part ≠ []) ∧
      (∀ v : g.Node, parts.flatten.count v = 1) ∧
      ∀ v w : g.Node, (∃ part ∈ parts, v ∈ part ∧ w ∈ part) ↔ g.Reaches v w ∧ g.Reaches w v := by
  have hnodup := nodup_flatten_componentNodes g
  have hall := fun v => mem_flatten_componentNodes (g := g) v
  refine ⟨componentNodes g, rfl, (settled_componentNodes g).nonempty, fun v => ?_, fun v w => ?_⟩
  · exact List.count_eq_one_of_mem hnodup (hall v)
  · exact (settled_componentNodes g).same_component_iff hnodup hall v w

end ArchFacts.Cycle
