import ArchFacts.Proofs.Graph.Truncation

/-!
# Traversals under other ceilings

Two traversals that ask the same under different ceilings go the same way until the tighter one is
*full*: it has reported as many nodes as its ceiling allows. From then on it drops every new name,
so the nodes it reports and the names it goes on from stay what they are, while the other walk adds
to its own (`Grows`). The level on which it became full is still crossed, by both walks, and no
level after it. So all that the tighter traversal reports is the beginning of what the other one
reports (`Overtaken`, kept by every level), and more levels only add to it.
-/

namespace ArchFacts

/-- The same is asked, under ceilings that are no higher. -/
structure TraversalOptions.Tighter (o o' : TraversalOptions) : Prop where
  direction : o'.direction = o.direction
  relationKinds : o'.relationKinds = o.relationKinds
  nodeKinds : o'.nodeKinds = o.nodeKinds
  depth : o.depthCeiling ≤ o'.depthCeiling
  nodes : o.nodeCeiling ≤ o'.nodeCeiling

theorem TraversalOptions.Tighter.reports {o o' : TraversalOptions} (h : o.Tighter o')
    (info : NodeInfo) : o'.reports info = o.reports info := by
  rw [TraversalOptions.reports, TraversalOptions.reports, h.nodeKinds]

namespace Graph

namespace Walk

variable {g : Graph} {o o' : TraversalOptions} {depth d : Nat} {w w' : Walk}

/-! ### Walks grow -/

theorem edges_nextLevel (w : Walk) :
    (w.nextLevel g o depth).edges = w.edges ++ w.crossed g o := by
  rw [nextLevel_eq_take]
  rfl

theorem nodes_nextLevel (w : Walk) : w.nodes <+: (w.nextLevel g o depth).nodes := by
  rw [nextLevel_eq_take]
  exact List.prefix_append _ _

/-- More levels add to what a walk has gathered. -/
theorem prefix_levels (left : Nat) (w : Walk) :
    w.nodes <+: (levels g o left d w).nodes ∧ w.edges <+: (levels g o left d w).edges := by
  induction left generalizing d w with
  | zero => exact ⟨List.prefix_refl _, List.prefix_refl _⟩
  | succ left ih =>
    obtain ⟨hnodes, hedges⟩ := ih (d := d + 1) (w.nextLevel g o (d + 1))
    rw [edges_nextLevel] at hedges
    exact ⟨(nodes_nextLevel w).trans hnodes, (List.prefix_append _ _).trans hedges⟩

theorem levels_add (left more : Nat) (w : Walk) :
    levels g o (left + more) d w = levels g o more (d + left) (levels g o left d w) := by
  induction left generalizing d w with
  | zero => rw [Nat.zero_add]; rfl
  | succ left ih =>
    have hd : d + (left + 1) = d + 1 + left := by omega
    rw [Nat.succ_add, levels, ih, hd]
    rfl

/-! ### Full walks -/

/-- Names are only dropped when the reported ones among those kept have taken all room. -/
theorem countP_kept {room : Nat} {names : List String}
    (h : (kept g o room names).length < names.length) :
    ((kept g o room names).countP fun name => o.reports (g.info name)) = room := by
  induction names generalizing room with
  | nil => exact absurd h (Nat.not_lt_zero _)
  | cons name rest ih =>
    cases room with
    | zero => rfl
    | succ room =>
      rw [kept, List.countP_cons, ih (Nat.lt_of_succ_lt_succ h)]
      split <;> omega

theorem room_take (w : Walk) (fresh : List String) :
    (w.take g o depth fresh).room o =
      w.room o - (kept g o (w.room o) fresh).countP fun name => o.reports (g.info name) :=
  room_extend w _

/-- A walk is full when it has dropped a name. -/
theorem full_of_dropped {fresh : List String}
    (h : (kept g o (w.room o) fresh).length < fresh.length) : (w.take g o depth fresh).Full o := by
  rw [full_iff, room_take, countP_kept h, Nat.sub_self]

theorem full_take (h : w.truncated = true → w.Full o) (fresh : List String)
    (ht : (w.take g o depth fresh).truncated = true) : (w.take g o depth fresh).Full o := by
  rcases (truncated_take fresh).mp ht with hw | hdropped
  · rw [full_iff, room_take, full_iff.mp (h hw), Nat.zero_sub]
  · exact full_of_dropped hdropped

theorem full_nextLevel (h : w.truncated = true → w.Full o) :
    (w.nextLevel g o depth).truncated = true → (w.nextLevel g o depth).Full o := by
  rw [nextLevel_eq_take]
  exact full_take (w := w.cross g o) h _

theorem full_levels (left : Nat) (h : w.truncated = true → w.Full o) :
    (levels g o left d w).truncated = true → (levels g o left d w).Full o := by
  induction left generalizing d w with
  | zero => exact h
  | succ left ih => exact ih (full_nextLevel h)

/-- A full walk finds nothing any more. -/
theorem Full.nextLevel (h : w.Full o) :
    (w.nextLevel g o depth).nodes = w.nodes ∧ (w.nextLevel g o depth).level = [] := by
  rw [nextLevel_eq_take, take_of_full (w := w.cross g o) h]
  exact ⟨rfl, rfl⟩

/-! ### Two walks -/

theorem kept_congr (htight : o.Tighter o') (room : Nat) (names : List String) :
    kept g o' room names = kept g o room names := by
  induction names generalizing room with
  | nil => rfl
  | cons name rest ih =>
    cases room with
    | zero => rfl
    | succ room => rw [kept, kept, htight.reports, ih]

/-- More room keeps more names. -/
theorem kept_mono {room room' : Nat} (h : room ≤ room') (names : List String) :
    kept g o room names <+: kept g o room' names := by
  induction names generalizing room room' with
  | nil => exact List.prefix_refl []
  | cons name rest ih =>
    cases room with
    | zero => exact List.nil_prefix
    | succ room =>
      obtain ⟨room', rfl⟩ := Nat.exists_eq_add_of_le' (Nat.le_trans (Nat.le_add_left 1 room) h)
      refine List.cons_prefix_cons.mpr ⟨rfl, ih ?_⟩
      split <;> omega

theorem extend_eq (htight : o.Tighter o') (w : Walk) (names : List String) :
    w.extend g o' depth names = w.extend g o depth names := by
  simp only [extend, report, htight.reports]

/-- What a walk adds while it looks at names. -/
structure Grows (w w' : Walk) : Prop where
  level : w.level <+: w'.level
  nodes : w.nodes <+: w'.nodes
  edges : w'.edges = w.edges

/-- Two walks on the same level: they are the same, or the tighter one is full, dropped a name and
is the beginning of the other one. -/
def Parting (o : TraversalOptions) (w w' : Walk) : Prop :=
  w' = w ∨ w.truncated = true ∧ w.Full o ∧ Grows w w'

theorem parting_take (htight : o.Tighter o') (w : Walk) (fresh : List String) :
    Parting o (w.take g o depth fresh) (w.take g o' depth fresh) := by
  have hkept : kept g o (w.room o) fresh <+: kept g o' (w.room o') fresh := by
    rw [kept_congr htight]
    exact kept_mono (Nat.sub_le_sub_right htight.nodes _) fresh
  by_cases hdropped : (kept g o (w.room o) fresh).length < fresh.length
  · have ht : (w.take g o depth fresh).truncated = true :=
      (truncated_take fresh).mpr (Or.inr hdropped)
    refine Or.inr ⟨ht, full_of_dropped hdropped, ?_, ?_, rfl⟩
    · exact (List.prefix_append_right_inj _).mpr hkept
    · refine (List.prefix_append_right_inj _).mpr ?_
      simp only [report, htight.reports]
      exact (hkept.filter _).map _
  · -- neither walk drops a name
    have hall : kept g o (w.room o) fresh = fresh :=
      (kept_isPrefix _ _).eq_of_length_le (Nat.not_lt.mp hdropped)
    have hall' : kept g o' (w.room o') fresh = fresh :=
      (kept_isPrefix _ _).eq_of_length_le
        (Nat.le_trans (Nat.not_lt.mp hdropped) hkept.length_le)
    left
    rw [take, take, hall, hall', extend_eq htight]

/-- Two walks at the end of a level: they are the same, or the tighter one is full, dropped a name
and has gathered a beginning of what the other one has, the edges that it still has to cross
included. -/
structure Overtaken (g : Graph) (o : TraversalOptions) (w w' : Walk) : Prop where
  truncated : w.truncated = true
  full : w.Full o
  nodes : w.nodes <+: w'.nodes
  edges : w.edges <+: w'.edges
  crossed : w.edges ++ w.crossed g o <+: w'.edges ++ w'.crossed g o

theorem Parting.overtaken (h : Parting o w w') : w' = w ∨ Overtaken g o w w' := by
  rcases h with rfl | ⟨htruncated, hfull, hgrows⟩
  · exact Or.inl rfl
  · obtain ⟨more, hlevel⟩ := hgrows.level
    have hedges : w.edges <+: w'.edges := hgrows.edges ▸ List.prefix_refl w.edges
    refine Or.inr ⟨htruncated, hfull, hgrows.nodes, hedges, ?_⟩
    rw [hgrows.edges, List.prefix_append_right_inj, Walk.crossed, Walk.crossed, ← hlevel,
      List.flatMap_append]
    exact List.prefix_append _ _

theorem cross_eq (htight : o.Tighter o') (w : Walk) : w.cross g o' = w.cross g o := by
  simp only [cross, Walk.crossed, htight.direction, htight.relationKinds]

theorem crossed_eq (htight : o.Tighter o') (w : Walk) : w.crossed g o' = w.crossed g o := by
  simp only [Walk.crossed, htight.direction, htight.relationKinds]

theorem fresh_eq (htight : o.Tighter o') (w : Walk) : w.fresh g o' = w.fresh g o := by
  simp only [fresh, htight.direction, htight.relationKinds]

/-- **One more level** for both walks. -/
theorem overtaken_nextLevel (htight : o.Tighter o') (h : w' = w ∨ Overtaken g o w w') :
    w'.nextLevel g o' depth = w.nextLevel g o depth ∨
      Overtaken g o (w.nextLevel g o depth) (w'.nextLevel g o' depth) := by
  rcases h with rfl | h
  · refine Parting.overtaken ?_
    rw [nextLevel_eq_take, nextLevel_eq_take, cross_eq htight, fresh_eq htight]
    exact parting_take htight _ _
  · -- the tighter walk crosses its last edges and finds nothing
    obtain ⟨hnodes, hlevel⟩ : (w.nextLevel g o depth).nodes = w.nodes ∧
        (w.nextLevel g o depth).level = [] := h.full.nextLevel
    have hedges : (w.nextLevel g o depth).edges <+: (w'.nextLevel g o' depth).edges := by
      rw [edges_nextLevel, edges_nextLevel, crossed_eq htight]
      exact h.crossed
    have hnone : (w.nextLevel g o depth).crossed g o = [] := by
      rw [Walk.crossed, hlevel]
      rfl
    refine Or.inr ⟨truncated_nextLevel h.truncated, ?_, ?_, hedges, ?_⟩
    · rw [Full, hnodes]
      exact h.full
    · rw [hnodes]
      exact h.nodes.trans (nodes_nextLevel w')
    · rw [hnone, List.append_nil]
      exact hedges.trans (List.prefix_append _ _)

/-- **A run of levels** of both walks. -/
theorem overtaken_levels (htight : o.Tighter o') (h : w' = w ∨ Overtaken g o w w') (left : Nat) :
    levels g o' left d w' = levels g o left d w ∨
      Overtaken g o (levels g o left d w) (levels g o' left d w') := by
  induction left generalizing d w w' with
  | zero => exact h
  | succ left ih => exact ih (overtaken_nextLevel htight h)

end Walk

/-! ### The result -/

variable {o o' : TraversalOptions}

/-- Under a higher node ceiling a traversal is the same, or the tighter one drops a name and reports
a beginning of what the other one reports. -/
theorem overtaken_traverse (g : Graph) (start : String) (htight : o.Tighter o') :
    Walk.levels g o' o.depthCeiling 0 (.atStart g start) =
        Walk.levels g o o.depthCeiling 0 (.atStart g start) ∨
      Walk.Overtaken g o (Walk.levels g o o.depthCeiling 0 (.atStart g start))
        (Walk.levels g o' o.depthCeiling 0 (.atStart g start)) :=
  Walk.overtaken_levels htight (Or.inl rfl) o.depthCeiling

/-- What a traversal reports is the beginning of what one under higher ceilings reports. -/
theorem prefix_traverse (g : Graph) (start : String) (htight : o.Tighter o') :
    (g.traverse start o).nodes <+: (g.traverse start o').nodes ∧
      (g.traverse start o).edges <+: (g.traverse start o').edges := by
  obtain ⟨more, hmore⟩ := Nat.exists_eq_add_of_le htight.depth
  have hlevels : Walk.levels g o' o'.depthCeiling 0 (.atStart g start) =
      Walk.levels g o' more (0 + o.depthCeiling)
        (Walk.levels g o' o.depthCeiling 0 (.atStart g start)) := by
    rw [hmore, Walk.levels_add]
  obtain ⟨hnodes, hedges⟩ := Walk.prefix_levels (g := g) (o := o') (d := 0 + o.depthCeiling) more
    (Walk.levels g o' o.depthCeiling 0 (.atStart g start))
  rw [← hlevels] at hnodes hedges
  rcases overtaken_traverse g start htight with hsame | hovertaken
  · rw [hsame] at hnodes hedges
    exact ⟨hnodes, hedges⟩
  · exact ⟨hovertaken.nodes.trans hnodes, hovertaken.edges.trans hedges⟩

/-- A traversal that drops no name is the same under a higher node ceiling. -/
theorem traverse_of_not_truncated (g : Graph) (start : String) (htight : o.Tighter o')
    (hdepth : o.depthCeiling = o'.depthCeiling) (ht : (g.traverse start o).truncated = false) :
    g.traverse start o' = g.traverse start o := by
  rcases overtaken_traverse g start htight with hsame | hovertaken
  · rw [traverse, traverse, ← hdepth, hsame, htight.direction]
  · have htruncated : (g.traverse start o).truncated = true := hovertaken.truncated
    rw [ht] at htruncated
    cases htruncated

/-- A traversal that drops a name has reported as many nodes as its ceiling allows. -/
theorem length_nodes_of_truncated {g : Graph} {start : String}
    (ht : (g.traverse start o).truncated = true) :
    (g.traverse start o).nodes.length = o.nodeCeiling := by
  have hstart : (Walk.atStart g start).truncated = true → (Walk.atStart g start).Full o := by
    intro h
    cases h
  exact Nat.le_antisymm (bounded_traverse g start o).nodes_le_ceiling
    (Walk.full_levels o.depthCeiling hstart ht)

/-- **The ceilings of a traversal**: it never reports more nodes than its node ceiling, what it
reports is the beginning of what it reports under higher ceilings, and unless it drops a name a
higher node ceiling changes nothing. If nodes of all kinds are reported, it drops one exactly if
there are more names within its depth ceiling than nodes allowed, and then reports just as many. -/
theorem traverse_ceilings (g : Graph) (start : String) (o o' : TraversalOptions)
    (htight : o.Tighter o') :
    (g.traverse start o).nodes.length ≤ o.nodeCeiling ∧
    (g.traverse start o).nodes <+: (g.traverse start o').nodes ∧
    (g.traverse start o).edges <+: (g.traverse start o').edges ∧
    (o.depthCeiling = o'.depthCeiling → (g.traverse start o).truncated = false →
      g.traverse start o' = g.traverse start o) ∧
    (o.nodeKinds = [] →
      ((g.traverse start o).truncated = true ↔
        ∃ names : List String, names.Nodup ∧ o.nodeCeiling < names.length ∧
          ∀ name ∈ names, g.Within o.direction o.relationKinds o.depthCeiling start name) ∧
      ((g.traverse start o).truncated = true →
        (g.traverse start o).nodes.length = o.nodeCeiling)) := by
  obtain ⟨hnodes, hedges⟩ := prefix_traverse g start htight
  exact ⟨(bounded_traverse g start o).nodes_le_ceiling, hnodes, hedges,
    traverse_of_not_truncated g start htight,
    fun hkinds => ⟨truncated_iff hkinds, length_nodes_of_truncated⟩⟩

/-- A node with three neighbours, of which one has a neighbour of its own. -/
def hub : List Fact :=
  [(((Fact.of .codeModule "hub").withRelation .imports "x").withRelation .imports "y").withRelation
      .imports "z",
    (Fact.of .codeModule "x").withRelation .calls "deep"]

/-- Two of the four nodes within reach are reported, and the first two of those that one goes on to
find when it may go one step farther and report one more. -/
theorem traverse_ceilings_hub :
    TraversalOptions.Tighter { maxDepth := 1, maxNodes := 2 } { maxDepth := 2, maxNodes := 3 } ∧
      ((build hub).traverse "hub" { maxDepth := 1, maxNodes := 2 }).truncated = true ∧
      ((build hub).traverse "hub" { maxDepth := 1, maxNodes := 2 }).nodes.length = 2 ∧
      ((build hub).traverse "hub" { maxDepth := 1, maxNodes := 2 }).edges.length = 3 ∧
      ((build hub).traverse "hub" { maxDepth := 1, maxNodes := 2 }).nodes <+:
        ((build hub).traverse "hub" { maxDepth := 2, maxNodes := 3 }).nodes ∧
      ((build hub).traverse "hub" { maxDepth := 1, maxNodes := 2 }).edges <+:
        ((build hub).traverse "hub" { maxDepth := 2, maxNodes := 3 }).edges := by
  have htight : TraversalOptions.Tighter { maxDepth := 1, maxNodes := 2 }
      { maxDepth := 2, maxNodes := 3 } :=
    ⟨rfl, rfl, rfl, by decide, by decide⟩
  have htruncated :
      ((build hub).traverse "hub" { maxDepth := 1, maxNodes := 2 }).truncated = true := by
    decide
  obtain ⟨-, hnodes, hedges, -, hceiling⟩ := traverse_ceilings (build hub) "hub" _ _ htight
  exact ⟨htight, htruncated, (hceiling rfl).2 htruncated, by decide, hnodes, hedges⟩

end Graph

end ArchFacts
