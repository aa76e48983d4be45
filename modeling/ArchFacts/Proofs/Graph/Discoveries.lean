import ArchFacts.Proofs.Graph.Ceilings

/-!
# What a traversal finds

The names that a traversal finds are those that the edges it crosses reach, in the order in which
they are reached for the first time. It keeps them, at their distances from the start, until the
reported ones among them are as many as its node ceiling allows, and drops the rest. The edges at
every name that is kept are crossed, in the same order, unless the name stands on the last level
(`Gathered`, kept by every level).
-/

namespace ArchFacts

namespace Graph

/-- The names, a start aside, that edges reach, in the order in which they are reached first. -/
def reachedNames (start : String) (direction : Direction) (edges : List Edge) : List String :=
  firstSeenAfter [start] (edges.map (·.reached direction))

theorem nodup_reachedNames (start : String) (direction : Direction) (edges : List Edge) :
    (start :: reachedNames start direction edges).Nodup := by
  refine List.nodup_cons.mpr ⟨fun hstart => ?_, nodup_firstSeenAfter _ _⟩
  exact (mem_firstSeenAfter.mp hstart).2 List.mem_cons_self

namespace Walk

variable {g : Graph} {o : TraversalOptions} {start : String} {d depth : Nat} {w : Walk}

/-- Names are kept one after the other. -/
theorem kept_append (room : Nat) (names more : List String) :
    kept g o room (names ++ more) = kept g o room names ++
      kept g o (room - (kept g o room names).countP fun name => o.reports (g.info name)) more := by
  induction names generalizing room with
  | nil =>
    rw [kept]
    rfl
  | cons name rest ih =>
    cases room with
    | zero => rw [kept_zero, kept_zero, Nat.zero_sub, kept_zero, List.append_nil]
    | succ room =>
      rw [List.cons_append, kept, kept, ih, List.cons_append, List.countP_cons]
      congr 3
      split <;> omega

/-- The names of the last level, at its depth. -/
def found (d : Nat) (w : Walk) : List (String × Nat) := w.level.map fun name => (name, d)

/-- The names that the next level finds. -/
def keptNext (g : Graph) (o : TraversalOptions) (w : Walk) : List String :=
  kept g o (w.room o) (w.fresh g o)

theorem keptNext_isPrefix (w : Walk) : w.keptNext g o <+: w.fresh g o := kept_isPrefix _ _

theorem found_nextLevel (w : Walk) :
    (w.nextLevel g o depth).found depth = (w.keptNext g o).map fun name => (name, depth) := by
  rw [nextLevel_eq_take]
  rfl

theorem nodes_nextLevel_report (w : Walk) :
    (w.nextLevel g o depth).nodes = w.nodes ++ report g o depth (w.keptNext g o) := by
  rw [nextLevel_eq_take]
  rfl

/-- Kept or dropped, all names that the edges reach were seen afterwards. -/
theorem seen_nextLevel (w : Walk) :
    (w.nextLevel g o depth).seen = (w.fresh g o).reverse ++ w.seen := by
  have hsplit := List.prefix_iff_eq_append.mp (keptNext_isPrefix (g := g) (o := o) w)
  rw [nextLevel_eq_take]
  change (List.drop _ _).reverse ++ ((w.keptNext g o).reverse ++ w.seen) = _
  rw [← List.append_assoc, ← List.reverse_append]
  exact congrArg (fun names => names.reverse ++ w.seen) hsplit

theorem room_nextLevel (w : Walk) :
    (w.nextLevel g o depth).room o =
      w.room o - (w.keptNext g o).countP fun name => o.reports (g.info name) := by
  rw [nextLevel_eq_take]
  exact room_extend (w.cross g o) _

theorem truncated_nextLevel_iff (w : Walk) :
    (w.nextLevel g o depth).truncated = true ↔
      w.truncated = true ∨ (w.keptNext g o).length < (w.fresh g o).length := by
  rw [nextLevel_eq_take]
  simp [take, drop, extend, keptNext, cross, room]

/-- The node that is reported of a name that was found. -/
def node (g : Graph) (p : String × Nat) : TraversalNode := ⟨p.1, g.info p.1, p.2⟩

/-- What a walk has gathered at the end of level `d`, if `earlier` are the names it found on the
levels before, each with its depth. -/
structure Gathered (g : Graph) (o : TraversalOptions) (start : String) (d : Nat) (w : Walk)
    (earlier : List (String × Nat)) : Prop where
  before : ∀ p ∈ earlier, p.2 < d
  edges : w.edges = earlier.flatMap fun p => g.crossings o.direction o.relationKinds p.1
  seen : w.seen = (reachedNames start o.direction w.edges).reverse ++ [start]
  names : (earlier ++ w.found d).map (·.1) =
    start :: kept g o (o.nodeCeiling - 1) (reachedNames start o.direction w.edges)
  room : w.room o = o.nodeCeiling - 1 -
    (kept g o (o.nodeCeiling - 1) (reachedNames start o.direction w.edges)).countP
      fun name => o.reports (g.info name)
  truncated : w.truncated = true ↔
    (kept g o (o.nodeCeiling - 1) (reachedNames start o.direction w.edges)).length <
      (reachedNames start o.direction w.edges).length
  full : w.truncated = true → w.Full o
  nodes : w.nodes =
    ((earlier ++ w.found d).filter fun p => p.1 = start ∨ o.reports (g.info p.1)).map (node g)
  visited : w.visited = (earlier ++ w.found d).length
  distance : ∀ p ∈ earlier ++ w.found d, g.Distance o.direction o.relationKinds start p.1 p.2
  reached : w.truncated = false → Reached g o start d w

namespace Gathered

variable {earlier : List (String × Nat)}

theorem atStart (g : Graph) (o : TraversalOptions) (start : String) :
    Gathered g o start 0 (Walk.atStart g start) [] where
  before _ hp := absurd hp List.not_mem_nil
  edges := rfl
  seen := rfl
  names := rfl
  room := rfl
  truncated := by simp [Walk.atStart, reachedNames, firstSeenAfter]
  full h := by cases h
  nodes := by simp [Walk.atStart, found, node]
  visited := rfl
  distance p hp := by
    obtain rfl : p = (start, 0) := List.mem_singleton.mp hp
    exact distance_zero.mpr rfl
  reached _ := .atStart g o start

/-- The edges that are crossed next reach the names that were not seen before. -/
theorem reachedNames_crossed (h : Gathered g o start d w earlier) :
    reachedNames start o.direction (w.edges ++ w.crossed g o) =
      reachedNames start o.direction w.edges ++ w.fresh g o := by
  rw [fresh, h.seen, reachedNames, List.map_append, firstSeenAfter_append]
  rfl

theorem kept_crossed (h : Gathered g o start d w earlier) :
    kept g o (o.nodeCeiling - 1) (reachedNames start o.direction (w.edges ++ w.crossed g o)) =
      kept g o (o.nodeCeiling - 1) (reachedNames start o.direction w.edges) ++
        w.keptNext g o := by
  rw [h.reachedNames_crossed, kept_append, ← h.room]
  rfl

/-- The names that are found next are at the next distance. -/
theorem distance_of_kept (h : Gathered g o start d w earlier) {name : String}
    (hname : name ∈ w.keptNext g o) :
    g.Distance o.direction o.relationKinds start name (d + 1) := by
  cases ht : w.truncated with
  | true =>
    -- a walk that dropped a name is full
    rw [keptNext, full_iff.mp (h.full ht), kept_zero] at hname
    cases hname
  | false => exact (h.reached ht).mem_fresh.mp (w.keptNext_isPrefix.subset hname)

/-- The start is not found again. -/
theorem ne_start (h : Gathered g o start d w earlier) {name : String}
    (hname : name ∈ w.keptNext g o) : name ≠ start := by
  rintro rfl
  have hseen : name ∉ w.seen := (mem_firstSeenAfter.mp (w.keptNext_isPrefix.subset hname)).2
  rw [h.seen] at hseen
  exact hseen (List.mem_append_right _ List.mem_cons_self)

theorem nodes_nextLevel_eq (h : Gathered g o start d w earlier) :
    (w.nextLevel g o (d + 1)).nodes = w.nodes ++
      (((w.nextLevel g o (d + 1)).found (d + 1)).filter
        fun p => p.1 = start ∨ o.reports (g.info p.1)).map (node g) := by
  rw [nodes_nextLevel_report, found_nextLevel, List.filter_map, List.map_map, report]
  refine congrArg _ (congrArg _ (List.filter_congr fun name hname => ?_))
  simp [h.ne_start hname]

/-- No name is dropped exactly if the names found are all that the edges reach. -/
theorem truncated_eq_false (h : Gathered g o start d w earlier) :
    w.truncated = false ↔
      (earlier ++ w.found d).map (·.1) = start :: reachedNames start o.direction w.edges := by
  rw [← Bool.not_eq_true, h.truncated, h.names, Nat.not_lt, List.cons_inj_right]
  constructor
  · exact (kept_isPrefix _ _).eq_of_length_le
  · intro hall
    exact Nat.le_of_eq (congrArg List.length hall).symm

/-- A walk that drops no name finds all within reach. -/
theorem mem_of_within (h : Gathered g o start d w earlier) (ht : w.truncated = false)
    {name : String} (hname : g.Within o.direction o.relationKinds d start name) :
    name ∈ (earlier ++ w.found d).map (·.1) := by
  rw [h.truncated_eq_false.mp ht]
  rw [← (h.reached ht).seen, h.seen] at hname
  simpa [or_comm] using hname

/-- The names found on the levels before are those above the last level. -/
theorem filter_lt (h : Gathered g o start d w earlier) :
    (earlier ++ w.found d).filter (·.2 < d) = earlier := by
  have hlast : (w.found d).filter (·.2 < d) = [] := by
    simp [found]
  have hbefore : earlier.filter (·.2 < d) = earlier :=
    List.filter_eq_self.mpr fun p hp => decide_eq_true (h.before p hp)
  rw [List.filter_append, hlast, hbefore, List.append_nil]

/-- **One more level.** -/
theorem nextLevel (h : Gathered g o start d w earlier) :
    Gathered g o start (d + 1) (w.nextLevel g o (d + 1)) (earlier ++ w.found d) := by
  have hedges : (w.nextLevel g o (d + 1)).edges = w.edges ++ w.crossed g o := edges_nextLevel w
  refine
    { before := fun p hp => ?_, edges := ?_, seen := ?_, names := ?_, room := ?_, truncated := ?_
      full := full_nextLevel h.full, nodes := ?_, visited := ?_
      distance := fun p hp => ?_, reached := fun ht => ?_ }
  · rcases List.mem_append.mp hp with hp | hp
    · exact Nat.lt_succ_of_lt (h.before p hp)
    · obtain ⟨name, -, rfl⟩ := List.mem_map.mp hp
      exact Nat.lt_succ_self d
  · rw [hedges, List.flatMap_append, ← h.edges, found, List.flatMap_map]
    rfl
  · rw [seen_nextLevel, hedges, h.reachedNames_crossed, List.reverse_append, List.append_assoc,
      ← h.seen]
  · rw [hedges, h.kept_crossed, List.map_append, h.names, found_nextLevel, List.map_map]
    simp [Function.comp_def]
  · rw [hedges, h.kept_crossed, List.countP_append, ← Nat.sub_sub, ← h.room, room_nextLevel]
  · -- what is kept is never longer than what it is kept of
    have hold := (kept_isPrefix (g := g) (o := o) (o.nodeCeiling - 1)
      (reachedNames start o.direction w.edges)).length_le
    have hnew := (keptNext_isPrefix (g := g) (o := o) w).length_le
    rw [hedges, h.kept_crossed, h.reachedNames_crossed, List.length_append, List.length_append,
      truncated_nextLevel_iff, h.truncated]
    omega
  · rw [List.filter_append, List.map_append, ← h.nodes]
    exact h.nodes_nextLevel_eq
  · rw [List.length_append, ← h.visited, found_nextLevel, List.length_map, nextLevel_eq_take]
    rfl
  · rcases List.mem_append.mp hp with hp | hp
    · exact h.distance p hp
    · rw [found_nextLevel] at hp
      obtain ⟨name, hname, rfl⟩ := List.mem_map.mp hp
      exact h.distance_of_kept hname
  · have hkept : w.truncated = false := by
      rw [← Bool.not_eq_true]
      intro hw
      rw [truncated_nextLevel hw] at ht
      cases ht
    exact (h.reached hkept).nextLevel ht

/-- **A run of levels.** -/
theorem levels (h : Gathered g o start d w earlier) (left : Nat) :
    ∃ before, Gathered g o start (d + left) (levels g o left d w) before := by
  induction left generalizing d w earlier with
  | zero => exact ⟨earlier, h⟩
  | succ left ih =>
    obtain ⟨before, hbefore⟩ := ih h.nextLevel
    rw [Nat.add_assoc, Nat.add_comm 1 left] at hbefore
    exact ⟨before, hbefore⟩

end Gathered

end Walk

end Graph

/-- What a traversal finds: its start and the names that it does not drop, reported or not, each
with its depth. -/
structure Traversal.Finds (g : Graph) (start : String) (o : TraversalOptions) (t : Traversal)
    (found : List (String × Nat)) : Prop where
  /-- The names stand in the order in which the crossed edges reach them first. Once the reported
  ones among them are as many as the node ceiling allows, the others are dropped. -/
  names : found.map (·.1) =
    start :: Graph.Walk.kept g o (o.nodeCeiling - 1)
      (Graph.reachedNames start o.direction t.edges)
  truncated : t.truncated = false ↔
    found.map (·.1) = start :: Graph.reachedNames start o.direction t.edges
  distance : ∀ p ∈ found, g.Distance o.direction o.relationKinds start p.1 p.2
  depth : ∀ p ∈ found, p.2 ≤ o.depthCeiling
  /-- Unless a name is dropped, all within the depth ceiling are found. -/
  complete : t.truncated = false → ∀ name,
    g.Within o.direction o.relationKinds o.depthCeiling start name → name ∈ found.map (·.1)
  /-- The kinds of nodes choose what is reported; the start always is. -/
  nodes : t.nodes = (found.filter fun p => p.1 = start ∨ o.reports (g.info p.1)).map
    fun p => ⟨p.1, g.info p.1, p.2⟩
  visited : t.visited = found.length

namespace Traversal.Finds

variable {g : Graph} {start : String} {o : TraversalOptions} {t : Traversal}
  {found : List (String × Nat)}

/-- No name is found twice. -/
theorem nodup (h : t.Finds g start o found) : (found.map (·.1)).Nodup := by
  rw [h.names]
  exact (Graph.nodup_reachedNames start o.direction t.edges).sublist
    ((Graph.Walk.kept_isPrefix _ _).sublist.cons_cons start)

/-- A node is reported at its distance, with what is known of it. -/
theorem of_mem_nodes (h : t.Finds g start o found) {n : TraversalNode} (hn : n ∈ t.nodes) :
    n.info = g.info n.name ∧ g.Distance o.direction o.relationKinds start n.name n.depth := by
  rw [h.nodes] at hn
  obtain ⟨p, hp, rfl⟩ := List.mem_map.mp hn
  exact ⟨rfl, h.distance p (List.mem_of_mem_filter hp)⟩

/-- Unless a name is dropped, those nearer than the depth ceiling are found above it. -/
theorem mem_of_distance (h : t.Finds g start o found) (ht : t.truncated = false) {name : String}
    {d : Nat} (hd : d < o.depthCeiling)
    (hdistance : g.Distance o.direction o.relationKinds start name d) :
    name ∈ (found.filter (·.2 < o.depthCeiling)).map (·.1) := by
  have hwithin := hdistance.within (Nat.le_of_lt hd)
  obtain ⟨p, hp, rfl⟩ := List.mem_map.mp (h.complete ht name hwithin)
  rw [hdistance.unique (h.distance p hp)] at hd
  exact List.mem_map_of_mem (List.mem_filter.mpr ⟨hp, decide_eq_true hd⟩)

end Traversal.Finds

namespace Graph

/-- **What a traversal finds**, whether it drops names or not. The edges that it crosses are those
at the names it found above its depth ceiling. -/
theorem finds_traverse (g : Graph) (start : String) (o : TraversalOptions) :
    ∃ found, (g.traverse start o).Finds g start o found ∧
      (g.traverse start o).edges =
        (found.filter (·.2 < o.depthCeiling)).flatMap
          fun p => g.crossings o.direction o.relationKinds p.1 := by
  obtain ⟨earlier, h⟩ := (Walk.Gathered.atStart g o start).levels o.depthCeiling
  rw [Nat.zero_add] at h
  refine ⟨_, { names := h.names, truncated := h.truncated_eq_false, distance := h.distance
               depth := fun p hp => ?_, complete := fun ht _ hname => h.mem_of_within ht hname
               nodes := h.nodes, visited := h.visited }, ?_⟩
  · rcases List.mem_append.mp hp with hp | hp
    · exact Nat.le_of_lt (h.before p hp)
    · obtain ⟨name, -, rfl⟩ := List.mem_map.mp hp
      exact Nat.le_refl _
  · rw [h.filter_lt]
    exact h.edges

end Graph

end ArchFacts
