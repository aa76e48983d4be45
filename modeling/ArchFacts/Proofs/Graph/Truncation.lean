import ArchFacts.Proofs.Graph.Agreement

/-!
# When a traversal drops nodes

A traversal has found more names than its node ceiling if it has dropped one: it drops a name only
when it has reported as many nodes as the ceiling allows, and each of those had a name of its own.
What it finds is within its depth ceiling, dropped or not (`Bounded`, kept by every step). If every
kind of node is reported, it also drops a name as soon as there are too many within the depth
ceiling, in whatever order it finds them. So whether it does depends on how many names there are
within reach and on nothing else (`truncated_iff`).
-/

namespace ArchFacts

theorem TraversalOptions.nodeCeiling_pos (o : TraversalOptions) : 0 < o.nodeCeiling :=
  ceiling_pos (by decide) (by decide)

namespace Graph

namespace Walk

variable {g : Graph} {o : TraversalOptions} {start : String} {d depth : Nat} {w : Walk}

/-- What a walk that has gone `d` levels far keeps, whether it dropped names or not. -/
structure Bounded (g : Graph) (o : TraversalOptions) (start : String) (d : Nat) (w : Walk) :
    Prop where
  level : ∀ name ∈ w.level, g.Hops o.direction o.relationKinds d start name
  seen : ∀ name ∈ w.seen, g.Within o.direction o.relationKinds d start name
  nodup_seen : w.seen.Nodup
  nodes_le_seen : w.nodes.length ≤ w.seen.length
  nodes_le_ceiling : w.nodes.length ≤ o.nodeCeiling
  truncated : w.truncated = true → o.nodeCeiling < w.seen.length

namespace Bounded

theorem atStart (g : Graph) (o : TraversalOptions) (start : String) :
    Bounded g o start 0 (Walk.atStart g start) where
  level name hname := hops_zero.mpr (List.mem_singleton.mp hname)
  seen name hname := within_zero.mpr (List.mem_singleton.mp hname)
  nodup_seen := List.nodup_singleton start
  nodes_le_seen := Nat.le_refl 1
  nodes_le_ceiling := o.nodeCeiling_pos
  truncated h := by cases h

/-- A name that was seen for the first time is within reach as those seen before. -/
theorem seen_cons (h : Bounded g o start d w) {name : String}
    (hwalk : g.Hops o.direction o.relationKinds d start name) :
    ∀ other ∈ name :: w.seen, g.Within o.direction o.relationKinds d start other := by
  intro other hother
  rcases List.mem_cons.mp hother with rfl | hother
  · exact ⟨d, Nat.le_refl d, hwalk⟩
  · exact h.seen other hother

theorem find (h : Bounded g o start d w) {name : String}
    (hwalk : g.Hops o.direction o.relationKinds d start name) :
    Bounded g o start d (w.find g o depth name) := by
  unfold Walk.find
  by_cases hname : name ∈ w.seen
  · rw [if_pos hname]
    exact h
  · rw [if_neg hname]
    have hnodup : (name :: w.seen).Nodup := List.nodup_cons.mpr ⟨hname, h.nodup_seen⟩
    by_cases hfull : o.nodeCeiling ≤ w.nodes.length
    · -- the reported nodes and the dropped one are too many
      rw [if_pos hfull]
      exact
        { level := h.level, seen := h.seen_cons hwalk, nodup_seen := hnodup
          nodes_le_seen := Nat.le_succ_of_le h.nodes_le_seen
          nodes_le_ceiling := h.nodes_le_ceiling
          truncated := fun _ => Nat.lt_succ_of_le (Nat.le_trans hfull h.nodes_le_seen) }
    · rw [if_neg hfull]
      have hnodes (reported : Bool) (node : TraversalNode) :
          (if reported then w.nodes ++ [node] else w.nodes).length ≤ w.nodes.length + 1 := by
        split
        · exact Nat.le_of_eq List.length_append
        · exact Nat.le_succ _
      refine
        { level := fun other hother => ?_, seen := h.seen_cons hwalk, nodup_seen := hnodup
          nodes_le_seen := Nat.le_trans (hnodes _ _) (Nat.succ_le_succ h.nodes_le_seen)
          nodes_le_ceiling := Nat.le_trans (hnodes _ _) (Nat.lt_of_not_le hfull)
          truncated := fun ht => Nat.lt_succ_of_lt (h.truncated ht) }
      rcases List.mem_append.mp hother with hother | hother
      · exact h.level other hother
      · exact List.mem_singleton.mp hother ▸ hwalk

theorem foldl_find (h : Bounded g o start d w) {names : List String}
    (hwalks : ∀ name ∈ names, g.Hops o.direction o.relationKinds d start name) :
    Bounded g o start d (names.foldl (Walk.find g o depth) w) := by
  induction names generalizing w with
  | nil => exact h
  | cons name rest ih =>
    obtain ⟨hname, hrest⟩ := List.forall_mem_cons.mp hwalks
    exact ih (h.find hname) hrest

/-- **One more level.** -/
theorem nextLevel (h : Bounded g o start d w) (depth : Nat) :
    Bounded g o start (d + 1) (w.nextLevel g o depth) := by
  unfold Walk.nextLevel
  refine foldl_find ?_ fun name hname => ?_
  · exact
      { level := fun _ hname => absurd hname List.not_mem_nil
        seen := fun name hname => (h.seen name hname).mono (Nat.le_succ d)
        nodup_seen := h.nodup_seen, nodes_le_seen := h.nodes_le_seen
        nodes_le_ceiling := h.nodes_le_ceiling, truncated := h.truncated }
  · -- the crossed edges lead one hop away from the last level
    rw [List.map_flatMap] at hname
    obtain ⟨b, hb, hname⟩ := List.mem_flatMap.mp hname
    exact .snoc (h.level b hb) (mem_map_crossings.mp hname)

/-- **A run of levels.** -/
theorem levels (h : Bounded g o start d w) (left : Nat) :
    Bounded g o start (d + left) (Walk.levels g o left d w) := by
  induction left generalizing d w with
  | zero => exact h
  | succ left ih =>
    have hrest := ih (h.nextLevel (d + 1))
    rw [Nat.add_assoc, Nat.add_comm 1 left] at hrest
    exact hrest

end Bounded

end Walk

theorem bounded_traverse (g : Graph) (start : String) (o : TraversalOptions) :
    Walk.Bounded g o start o.depthCeiling (Walk.levels g o o.depthCeiling 0 (.atStart g start)) := by
  have h := (Walk.Bounded.atStart g o start).levels o.depthCeiling
  rwa [Nat.zero_add] at h

/-- A traversal that reports nodes of all kinds drops one exactly if there are more names within its
depth ceiling than its node ceiling allows. -/
theorem truncated_iff {g : Graph} {start : String} {o : TraversalOptions}
    (hkinds : o.nodeKinds = []) :
    (g.traverse start o).truncated = true ↔
      ∃ names : List String, names.Nodup ∧ o.nodeCeiling < names.length ∧
        ∀ name ∈ names, g.Within o.direction o.relationKinds o.depthCeiling start name := by
  have hbounded := bounded_traverse g start o
  constructor
  · intro htruncated
    exact ⟨_, hbounded.nodup_seen, hbounded.truncated htruncated, hbounded.seen⟩
  · rintro ⟨names, hnodup, hmany, hwithin⟩
    by_contra htruncated
    -- then every one of the names was reported
    have hreported : names ⊆ (g.traverse start o).nodes.map (·.name) := by
      intro name hname
      obtain ⟨d, hd, hdistance⟩ := (hwithin name hname).distance
      obtain ⟨n, hn, hname, -⟩ :=
        (reports_iff hkinds (eq_false_of_ne_true htruncated)).mpr ⟨hd, hdistance⟩
      exact List.mem_map.mpr ⟨n, hn, hname⟩
    have hlength := hnodup.length_le_of_subset hreported
    rw [List.length_map] at hlength
    exact absurd hmany (Nat.not_lt.mpr (Nat.le_trans hlength hbounded.nodes_le_ceiling))

end Graph

end ArchFacts
