import ArchFacts.Proofs.Graph.Discoveries

/-!
# The layers of a traversal

A traversal reports its start first and then one layer of nodes after the other, each a hop deeper
than the one before. If it reports nodes of all kinds, no layer up to the deepest is empty, wherever
its node ceiling cuts it off: from a level on which nothing is kept there is nothing to go on from
(`Layered`, kept by every level).
-/

namespace ArchFacts

namespace Graph

namespace Walk

variable {g : Graph} {o : TraversalOptions} {start : String} {d depth : Nat} {w : Walk}

/-! ### What a level adds -/

theorem level_nextLevel (w : Walk) : (w.nextLevel g o depth).level = w.keptNext g o := by
  rw [nextLevel_eq_take]
  rfl

theorem deepest_nextLevel (w : Walk) :
    (w.nextLevel g o depth).deepest =
      if w.keptNext g o = [] then w.deepest else max w.deepest depth := by
  rw [nextLevel_eq_take]
  rfl

/-- From a level without nodes nothing is found. -/
theorem keptNext_of_level_eq_nil (h : w.level = []) : w.keptNext g o = [] := by
  rw [keptNext, fresh, h]
  rfl

theorem depth_of_mem_report {names : List String} {n : TraversalNode}
    (hn : n ∈ report g o depth names) : n.depth = depth := by
  obtain ⟨name, -, rfl⟩ := List.mem_map.mp hn
  rfl

theorem report_ne_nil (hkinds : o.nodeKinds = []) {names : List String} (h : names ≠ []) :
    report g o depth names ≠ [] := by
  obtain ⟨name, hname⟩ := List.exists_mem_of_ne_nil names h
  have hreported : name ∈ names.filter fun name => o.reports (g.info name) :=
    List.mem_filter.mpr ⟨hname, o.reports_of_all hkinds _⟩
  exact List.ne_nil_of_mem (List.mem_map_of_mem hreported)

/-! ### Layer after layer -/

/-- Nodes reported layer by layer, down to the deepest. -/
structure Layers (g : Graph) (o : TraversalOptions) (start : String) (nodes : List TraversalNode)
    (deepest : Nat) : Prop where
  head : ∃ below, nodes = ⟨start, g.info start, 0⟩ :: below ∧ ∀ n ∈ below, 0 < n.depth
  ascending : nodes.Pairwise (·.depth ≤ ·.depth)
  le_deepest : ∀ n ∈ nodes, n.depth ≤ deepest
  occupied : o.nodeKinds = [] → ∀ k ≤ deepest, ∃ n ∈ nodes, n.depth = k

/-- What a walk has reported at the end of level `d`. -/
structure Layered (g : Graph) (o : TraversalOptions) (start : String) (d : Nat) (w : Walk) : Prop
    extends Layers g o start w.nodes w.deepest where
  /-- Unless the last level is the deepest, there is nothing to go on from. -/
  level : w.level ≠ [] → w.deepest = d

namespace Layered

theorem atStart (g : Graph) (o : TraversalOptions) (start : String) :
    Layered g o start 0 (Walk.atStart g start) where
  head := ⟨[], rfl, fun _ hn => absurd hn List.not_mem_nil⟩
  ascending := List.pairwise_singleton _ _
  le_deepest n hn := by
    obtain rfl := List.mem_singleton.mp hn
    exact Nat.le_refl 0
  occupied _ k hk := ⟨_, List.mem_singleton_self _, (Nat.le_zero.mp hk).symm⟩
  level _ := rfl

/-- A level on which nothing is kept leaves the nodes as they are, and nothing to go on from. -/
theorem nextLevel_of_nil (h : Layered g o start d w) (hkept : w.keptNext g o = []) :
    Layered g o start (d + 1) (w.nextLevel g o (d + 1)) := by
  have hnodes : (w.nextLevel g o (d + 1)).nodes = w.nodes := by
    rw [nodes_nextLevel_report, hkept]
    exact List.append_nil _
  have hdeepest : (w.nextLevel g o (d + 1)).deepest = w.deepest :=
    (deepest_nextLevel w).trans (if_pos hkept)
  have hlayers : Layers g o start (w.nextLevel g o (d + 1)).nodes
      (w.nextLevel g o (d + 1)).deepest := by
    rw [hnodes, hdeepest]
    exact h.toLayers
  exact { hlayers with level := fun hlevel => absurd ((level_nextLevel w).trans hkept) hlevel }

/-- A level on which names are kept is a layer right below the deepest one. -/
theorem nextLevel_of_ne_nil (h : Layered g o start d w) (hkept : w.keptNext g o ≠ []) :
    Layered g o start (d + 1) (w.nextLevel g o (d + 1)) := by
  have hd : w.deepest = d := h.level (mt keptNext_of_level_eq_nil hkept)
  have hnodes : (w.nextLevel g o (d + 1)).nodes = w.nodes ++ report g o (d + 1) (w.keptNext g o) :=
    nodes_nextLevel_report w
  have hdeepest : (w.nextLevel g o (d + 1)).deepest = d + 1 := by
    rw [deepest_nextLevel, if_neg hkept, hd]
    exact Nat.max_eq_right (Nat.le_succ d)
  have hold (n : TraversalNode) (hn : n ∈ w.nodes) : n.depth ≤ d + 1 :=
    Nat.le_succ_of_le (hd ▸ h.le_deepest n hn)
  refine
    { head := ?_, ascending := ?_, le_deepest := ?_, occupied := ?_
      level := fun _ => hdeepest }
  · obtain ⟨below, hbelow, hpos⟩ := h.head
    refine ⟨below ++ report g o (d + 1) (w.keptNext g o), ?_, fun n hn => ?_⟩
    · rw [hnodes, hbelow, List.cons_append]
    · rcases List.mem_append.mp hn with hn | hn
      · exact hpos n hn
      · exact Nat.lt_of_lt_of_eq (Nat.succ_pos d) (depth_of_mem_report hn).symm
  · rw [hnodes]
    refine List.pairwise_append.mpr ⟨h.ascending, ?_, fun a ha b hb => ?_⟩
    · refine List.pairwise_of_forall_mem_list fun a ha b hb => ?_
      exact Nat.le_of_eq ((depth_of_mem_report ha).trans (depth_of_mem_report hb).symm)
    · exact Nat.le_trans (hold a ha) (Nat.le_of_eq (depth_of_mem_report hb).symm)
  · rw [hnodes, hdeepest]
    intro n hn
    rcases List.mem_append.mp hn with hn | hn
    · exact hold n hn
    · exact Nat.le_of_eq (depth_of_mem_report hn)
  · rw [hnodes, hdeepest]
    intro hkinds k hk
    rcases Nat.lt_or_eq_of_le hk with hlt | rfl
    · obtain ⟨n, hn, hdepth⟩ := h.occupied hkinds k (hd ▸ Nat.le_of_lt_succ hlt)
      exact ⟨n, List.mem_append_left _ hn, hdepth⟩
    · obtain ⟨n, hn⟩ := List.exists_mem_of_ne_nil _ (report_ne_nil hkinds hkept)
      exact ⟨n, List.mem_append_right _ hn, depth_of_mem_report hn⟩

/-- **One more level.** -/
theorem nextLevel (h : Layered g o start d w) :
    Layered g o start (d + 1) (w.nextLevel g o (d + 1)) := by
  by_cases hkept : w.keptNext g o = []
  · exact h.nextLevel_of_nil hkept
  · exact h.nextLevel_of_ne_nil hkept

/-- **A run of levels.** -/
theorem levels (h : Layered g o start d w) (left : Nat) :
    Layered g o start (d + left) (Walk.levels g o left d w) := by
  induction left generalizing d w with
  | zero => exact h
  | succ left ih =>
    have hrest := ih h.nextLevel
    rw [Nat.add_assoc, Nat.add_comm 1 left] at hrest
    exact hrest

end Layered

end Walk

theorem layers_traverse (g : Graph) (start : String) (o : TraversalOptions) :
    Walk.Layers g o start (g.traverse start o).nodes (g.traverse start o).deepest :=
  ((Walk.Layered.atStart g o start).levels o.depthCeiling).toLayers

end Graph

end ArchFacts
