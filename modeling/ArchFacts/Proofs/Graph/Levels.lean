import ArchFacts.Proofs.Graph.Distance
import Mathlib.Data.List.Nodup

/-!
# The levels of a traversal

Going on to the next level takes the names that the crossed edges reach and that were not seen
before, each at its first appearance: as many of them are kept as there is room for, and the rest is
dropped (`nextLevel_eq_take`). As long as none is dropped, those are the names at the next distance
from the start, by induction on the levels, and what a traversal has gathered by then is told by the
distances alone (`Reached`).
-/

namespace ArchFacts.Graph.Walk

variable {g : Graph} {o : TraversalOptions} {start : String} {d depth : Nat} {w : Walk}

/-! ### One level -/

/-- The nodes of some names at a depth, as far as they are reported. -/
def report (g : Graph) (o : TraversalOptions) (depth : Nat) (names : List String) :
    List TraversalNode :=
  (names.filter fun name => o.reports (g.info name)).map fun name => ⟨name, g.info name, depth⟩

/-- A walk that finds some names at a depth and drops none of them. -/
def extend (g : Graph) (o : TraversalOptions) (depth : Nat) (w : Walk) (fresh : List String) :
    Walk :=
  { w with
    seen := fresh.reverse ++ w.seen
    level := w.level ++ fresh
    nodes := w.nodes ++ report g o depth fresh
    visited := w.visited + fresh.length
    deepest := if fresh = [] then w.deepest else max w.deepest depth }

theorem extend_nil (w : Walk) : w.extend g o depth [] = w := by
  simp [extend, report]

theorem extend_cons (w : Walk) (name : String) (fresh : List String) :
    (w.extend g o depth [name]).extend g o depth fresh = w.extend g o depth (name :: fresh) := by
  by_cases hr : o.reports (g.info name)
  · by_cases hf : fresh = []
    · simp [extend, report, hr, hf]
    · simp [extend, report, hr, hf, Nat.add_assoc, Nat.add_comm 1]
  · by_cases hf : fresh = []
    · simp [extend, report, hr, hf]
    · simp [extend, report, hr, hf, Nat.add_assoc, Nat.add_comm 1]

/-- As many nodes are reported as the ceiling allows. -/
def Full (o : TraversalOptions) (w : Walk) : Prop := o.nodeCeiling ≤ w.nodes.length

theorem find_of_mem {name : String} (hname : name ∈ w.seen) : w.find g o depth name = w :=
  if_pos hname

/-- A full walk drops a new name. -/
theorem Full.find_of_notMem (h : w.Full o) {name : String} (hname : name ∉ w.seen) :
    w.find g o depth name = { w with seen := name :: w.seen, truncated := true } :=
  (if_neg hname).trans (if_pos h)

/-- Where there is room, a new name is found. -/
theorem find_of_room {name : String} (hname : name ∉ w.seen) (h : ¬w.Full o) :
    w.find g o depth name = w.extend g o depth [name] := by
  refine ((if_neg hname).trans (if_neg h)).trans ?_
  by_cases hr : o.reports (g.info name)
  · simp [extend, report, hr]
  · simp [extend, report, hr]

/-- How many more nodes may be reported. -/
def room (o : TraversalOptions) (w : Walk) : Nat := o.nodeCeiling - w.nodes.length

theorem full_iff : w.Full o ↔ w.room o = 0 := Nat.sub_eq_zero_iff_le.symm

theorem length_report (names : List String) :
    (report g o depth names).length = names.countP fun name => o.reports (g.info name) := by
  rw [report, List.length_map, List.countP_eq_length_filter]

/-- The reported ones among the names that are found take some of the room. -/
theorem room_extend (w : Walk) (names : List String) :
    (w.extend g o depth names).room o =
      w.room o - names.countP fun name => o.reports (g.info name) := by
  rw [room, room, extend, List.length_append, length_report, Nat.sub_sub]

/-- The names that are kept where that many more nodes may be reported: once the reported ones among
them have taken the room, the others are dropped. -/
def kept (g : Graph) (o : TraversalOptions) : Nat → List String → List String
  | _, [] => []
  | 0, _ :: _ => []
  | room + 1, name :: rest =>
    name :: kept g o (if o.reports (g.info name) then room else room + 1) rest

theorem kept_zero (names : List String) : kept g o 0 names = [] := by
  cases names <;> rfl

theorem kept_isPrefix (room : Nat) (names : List String) : kept g o room names <+: names := by
  induction names generalizing room with
  | nil => exact List.prefix_refl []
  | cons name rest ih =>
    cases room with
    | zero => exact List.nil_prefix
    | succ room => exact List.cons_prefix_cons.mpr ⟨rfl, ih _⟩

/-- A walk that looks at some new names and drops them. -/
def drop (w : Walk) (names : List String) : Walk :=
  { w with seen := names.reverse ++ w.seen, truncated := w.truncated || !names.isEmpty }

theorem drop_nil (w : Walk) : w.drop [] = w := by
  simp [drop]

/-- Looking at new names keeps those for which there is room and drops the others. -/
def take (g : Graph) (o : TraversalOptions) (depth : Nat) (w : Walk) (fresh : List String) : Walk :=
  let names := kept g o (w.room o) fresh
  (w.extend g o depth names).drop (fresh.drop names.length)

theorem take_nil (w : Walk) : w.take g o depth [] = w := by
  rw [take, kept]
  exact (drop_nil _).trans (extend_nil w)

theorem take_of_full (h : w.Full o) (fresh : List String) :
    w.take g o depth fresh = w.drop fresh := by
  rw [take, full_iff.mp h, kept_zero, extend_nil]
  rfl

theorem truncated_take (fresh : List String) :
    (w.take g o depth fresh).truncated = true ↔
      w.truncated = true ∨ (kept g o (w.room o) fresh).length < fresh.length := by
  simp [take, drop, extend]

/-- A walk that drops none of the names it looks at finds all of them. -/
theorem take_of_not_truncated {fresh : List String}
    (h : (w.take g o depth fresh).truncated = false) :
    w.take g o depth fresh = w.extend g o depth fresh := by
  rw [← Bool.not_eq_true, truncated_take, not_or, Nat.not_lt] at h
  have hall : kept g o (w.room o) fresh = fresh := (kept_isPrefix _ _).eq_of_length_le h.2
  rw [take, hall, List.drop_length, drop_nil]

theorem take_cons (h : ¬w.Full o) (name : String) (fresh : List String) :
    w.take g o depth (name :: fresh) = (w.extend g o depth [name]).take g o depth fresh := by
  obtain ⟨left, hleft⟩ := Nat.exists_eq_succ_of_ne_zero (mt full_iff.mpr h)
  have hroom : (w.extend g o depth [name]).room o =
      if o.reports (g.info name) then left else left + 1 := by
    rw [room_extend, hleft, List.countP_singleton]
    split <;> rfl
  simp only [take, hleft, hroom, kept, extend_cons]
  rfl

/-- Looking at names takes those that are new, each once. -/
theorem foldl_find_eq (w : Walk) (names : List String) :
    names.foldl (find g o depth) w = w.take g o depth (firstSeenAfter w.seen names) := by
  induction names generalizing w with
  | nil => exact (take_nil w).symm
  | cons name rest ih =>
    rw [List.foldl_cons, firstSeenAfter]
    by_cases hseen : name ∈ w.seen
    · rw [find_of_mem hseen, if_pos hseen]
      exact ih w
    · rw [if_neg hseen]
      by_cases hfull : w.Full o
      · -- the name is dropped, and so is every new one that comes after
        have hstill : Full o { w with seen := name :: w.seen, truncated := true } := hfull
        rw [hfull.find_of_notMem hseen, ih, take_of_full hfull, take_of_full hstill]
        simp [drop]
      · rw [find_of_room hseen hfull, ih, take_cons hfull]
        rfl

/-- The edges that are crossed on the way to the next level. -/
def crossed (g : Graph) (o : TraversalOptions) (w : Walk) : List Edge :=
  w.level.flatMap (g.crossings o.direction o.relationKinds)

/-- The walk with those edges crossed, before it looks at the names that they reach. -/
def cross (g : Graph) (o : TraversalOptions) (w : Walk) : Walk :=
  { w with level := [], edges := w.edges ++ w.crossed g o }

/-- The names that the edges at the nodes of the last level reach and that were not seen before. -/
def fresh (g : Graph) (o : TraversalOptions) (w : Walk) : List String :=
  firstSeenAfter w.seen
    ((w.level.flatMap (g.crossings o.direction o.relationKinds)).map (·.reached o.direction))

theorem nextLevel_eq_take (w : Walk) :
    w.nextLevel g o depth = (w.cross g o).take g o depth (w.fresh g o) :=
  foldl_find_eq (w.cross g o) _

theorem nextLevel_eq (h : (w.nextLevel g o depth).truncated = false) :
    w.nextLevel g o depth = (w.cross g o).extend g o depth (w.fresh g o) := by
  rw [nextLevel_eq_take] at h ⊢
  exact take_of_not_truncated h

/-- A walk that dropped a name has dropped one ever after. -/
theorem truncated_nextLevel (h : w.truncated = true) :
    (w.nextLevel g o depth).truncated = true := by
  rw [nextLevel_eq_take, truncated_take]
  exact Or.inl h

theorem truncated_levels (left : Nat) (h : w.truncated = true) :
    (levels g o left depth w).truncated = true := by
  induction left generalizing depth w with
  | zero => exact h
  | succ left ih => exact ih (truncated_nextLevel h)

/-! ### All levels -/

/-- What a walk has gathered when it has gone through the names at distances up to `d`. -/
structure Reached (g : Graph) (o : TraversalOptions) (start : String) (d : Nat) (w : Walk) :
    Prop where
  level : ∀ name, name ∈ w.level ↔ g.Distance o.direction o.relationKinds start name d
  seen : ∀ name, name ∈ w.seen ↔ g.Within o.direction o.relationKinds d start name
  nodup_seen : w.seen.Nodup
  head : w.nodes.head? = some ⟨start, g.info start, 0⟩
  mem_nodes : ∀ n, n ∈ w.nodes ↔
    n.depth ≤ d ∧ g.Distance o.direction o.relationKinds start n.name n.depth ∧
      n.info = g.info n.name ∧ (n.name = start ∨ o.reports (g.info n.name) = true)
  nodup_names : (w.nodes.map (·.name)).Nodup
  ascending : w.nodes.Pairwise (·.depth ≤ ·.depth)
  visited : w.visited = w.seen.length
  deepest_le : w.deepest ≤ d
  deepest : ∃ name, g.Distance o.direction o.relationKinds start name w.deepest
  le_deepest : ∀ name, ∀ k ≤ d,
    g.Distance o.direction o.relationKinds start name k → k ≤ w.deepest

namespace Reached

theorem atStart (g : Graph) (o : TraversalOptions) (start : String) :
    Reached g o start 0 (Walk.atStart g start) where
  level name := List.mem_singleton.trans distance_zero.symm
  seen name := List.mem_singleton.trans within_zero.symm
  nodup_seen := by simp [Walk.atStart]
  head := rfl
  mem_nodes n := by
    refine List.mem_singleton.trans ?_
    constructor
    · rintro rfl
      exact ⟨Nat.le_refl 0, distance_zero.mpr rfl, rfl, Or.inl rfl⟩
    · rintro ⟨hd, hdist, hinfo, -⟩
      obtain ⟨name, info, depth⟩ := n
      obtain rfl : depth = 0 := Nat.le_zero.mp hd
      obtain rfl : name = start := distance_zero.mp hdist
      obtain rfl : info = g.info name := hinfo
      rfl
  nodup_names := by simp [Walk.atStart]
  ascending := List.pairwise_singleton _ _
  visited := rfl
  deepest_le := Nat.le_refl 0
  deepest := ⟨start, distance_zero.mpr rfl⟩
  le_deepest _ _ hk _ := hk

/-- The fresh names are those at the next distance. -/
theorem mem_fresh (h : Reached g o start d w) {name : String} :
    name ∈ w.fresh g o ↔ g.Distance o.direction o.relationKinds start name (d + 1) := by
  rw [fresh, mem_firstSeenAfter, h.seen, distance_succ, List.map_flatMap, List.mem_flatMap]
  refine and_congr_left fun _ => exists_congr fun b => ?_
  rw [h.level, mem_map_crossings]

/-- The nodes that a level adds to the report. -/
theorem mem_report (h : Reached g o start d w) {n : TraversalNode} :
    n ∈ report g o (d + 1) (w.fresh g o) ↔
      n.depth = d + 1 ∧ g.Distance o.direction o.relationKinds start n.name n.depth ∧
        n.info = g.info n.name ∧ o.reports (g.info n.name) = true := by
  unfold report
  rw [List.mem_map]
  constructor
  · rintro ⟨name, hname, rfl⟩
    obtain ⟨hfresh, hr⟩ := List.mem_filter.mp hname
    exact ⟨rfl, h.mem_fresh.mp hfresh, rfl, hr⟩
  · obtain ⟨name, info, depth⟩ := n
    rintro ⟨hd, hdist, hinfo, hr⟩
    obtain rfl : depth = d + 1 := hd
    obtain rfl : info = g.info name := hinfo
    exact ⟨name, List.mem_filter.mpr ⟨h.mem_fresh.mpr hdist, hr⟩, rfl⟩

theorem mem_nodes_report (h : Reached g o start d w) (n : TraversalNode) :
    n ∈ w.nodes ++ report g o (d + 1) (w.fresh g o) ↔
      n.depth ≤ d + 1 ∧ g.Distance o.direction o.relationKinds start n.name n.depth ∧
        n.info = g.info n.name ∧ (n.name = start ∨ o.reports (g.info n.name) = true) := by
  rw [List.mem_append, h.mem_nodes, h.mem_report]
  constructor
  · rintro (⟨hd, hdist, hinfo, hr⟩ | ⟨hd, hdist, hinfo, hr⟩)
    · exact ⟨Nat.le_succ_of_le hd, hdist, hinfo, hr⟩
    · exact ⟨Nat.le_of_eq hd, hdist, hinfo, Or.inr hr⟩
  · rintro ⟨hd, hdist, hinfo, hr⟩
    rcases Nat.lt_or_eq_of_le hd with hlt | heq
    · exact Or.inl ⟨Nat.le_of_lt_succ hlt, hdist, hinfo, hr⟩
    · rcases hr with hstart | hr
      · -- the start is at distance 0
        have hzero := hdist.unique (distance_zero.mpr hstart)
        exact absurd (heq.symm.trans hzero) (Nat.succ_ne_zero d)
      · exact Or.inr ⟨heq, hdist, hinfo, hr⟩

theorem nodup_names_report (h : Reached g o start d w) :
    ((w.nodes ++ report g o (d + 1) (w.fresh g o)).map (·.name)).Nodup := by
  have hnodup : (w.fresh g o).Nodup := nodup_firstSeenAfter _ _
  rw [List.map_append]
  refine List.nodup_append.mpr ⟨h.nodup_names, ?_, ?_⟩
  · unfold report
    rw [List.map_map]
    simpa [Function.comp_def] using hnodup.filter fun name => o.reports (g.info name)
  · rintro a ha b hb rfl
    obtain ⟨n, hn, rfl⟩ := List.mem_map.mp ha
    obtain ⟨m, hm, hname⟩ := List.mem_map.mp hb
    -- a name has one distance, at most `d` and above it
    obtain ⟨hd, hdist, -⟩ := (h.mem_nodes n).mp hn
    obtain ⟨hd', hdist', -⟩ := h.mem_report.mp hm
    rw [hname] at hdist'
    rw [hdist.unique hdist', hd'] at hd
    exact Nat.not_succ_le_self d hd

theorem ascending_report (h : Reached g o start d w) :
    (w.nodes ++ report g o (d + 1) (w.fresh g o)).Pairwise (·.depth ≤ ·.depth) := by
  refine List.pairwise_append.mpr ⟨h.ascending, ?_, fun a ha b hb => ?_⟩
  · refine List.pairwise_iff_forall_sublist.mpr fun {a b} hab => ?_
    have ha := (h.mem_report.mp (hab.subset List.mem_cons_self)).1
    have hb := (h.mem_report.mp (hab.subset (by simp : b ∈ [a, b]))).1
    exact Nat.le_of_eq (ha.trans hb.symm)
  · have ha := ((h.mem_nodes a).mp ha).1
    have hb := (h.mem_report.mp hb).1
    rw [hb]
    exact Nat.le_succ_of_le ha

/-- The depth that a walk has reached after one more level. -/
theorem distance_deepest_extend (h : Reached g o start d w) :
    (if w.fresh g o = [] then w.deepest else max w.deepest (d + 1)) ≤ d + 1 ∧
      (∃ name, g.Distance o.direction o.relationKinds start name
        (if w.fresh g o = [] then w.deepest else max w.deepest (d + 1))) ∧
      ∀ name, ∀ k ≤ d + 1, g.Distance o.direction o.relationKinds start name k →
        k ≤ if w.fresh g o = [] then w.deepest else max w.deepest (d + 1) := by
  by_cases hf : w.fresh g o = []
  · rw [if_pos hf]
    refine ⟨Nat.le_succ_of_le h.deepest_le, h.deepest, fun name k hk hdist => ?_⟩
    rcases Nat.lt_or_eq_of_le hk with hlt | rfl
    · exact h.le_deepest name k (Nat.le_of_lt_succ hlt) hdist
    · -- no name is at distance `d + 1`
      have hname : name ∈ w.fresh g o := h.mem_fresh.mpr hdist
      rw [hf] at hname
      cases hname
  · have hmax : max w.deepest (d + 1) = d + 1 :=
      Nat.max_eq_right (Nat.le_succ_of_le h.deepest_le)
    rw [if_neg hf, hmax]
    obtain ⟨name, hname⟩ := List.exists_mem_of_ne_nil _ hf
    exact ⟨Nat.le_refl _, ⟨name, h.mem_fresh.mp hname⟩, fun _ _ hk _ => hk⟩

/-- **One more level**, if it drops no node. -/
theorem nextLevel (h : Reached g o start d w) (ht : (w.nextLevel g o (d + 1)).truncated = false) :
    Reached g o start (d + 1) (w.nextLevel g o (d + 1)) := by
  rw [nextLevel_eq ht]
  have hnodup : (w.fresh g o).Nodup := nodup_firstSeenAfter _ _
  refine
    { level := fun name => h.mem_fresh, seen := fun name => ?_, nodup_seen := ?_, head := ?_
      mem_nodes := h.mem_nodes_report, nodup_names := h.nodup_names_report
      ascending := h.ascending_report, visited := ?_
      deepest_le := h.distance_deepest_extend.1, deepest := h.distance_deepest_extend.2.1
      le_deepest := h.distance_deepest_extend.2.2 }
  · change name ∈ (w.fresh g o).reverse ++ w.seen ↔ _
    rw [List.mem_append, List.mem_reverse, h.mem_fresh, h.seen, within_succ, or_comm]
  · -- fresh names were not seen before
    refine List.nodup_append.mpr ⟨List.nodup_reverse.mpr hnodup, h.nodup_seen, ?_⟩
    rintro a ha _ hb rfl
    exact (mem_firstSeenAfter.mp (List.mem_reverse.mp ha)).2 hb
  · change (w.nodes ++ _).head? = _
    rw [List.head?_append, h.head]
    rfl
  · change w.visited + _ = ((w.fresh g o).reverse ++ w.seen).length
    rw [List.length_append, List.length_reverse, h.visited, Nat.add_comm]

/-- **A run of levels**, if none of them drops a node. -/
theorem levels (h : Reached g o start d w) (left : Nat)
    (ht : (levels g o left d w).truncated = false) :
    Reached g o start (d + left) (levels g o left d w) := by
  induction left generalizing d w with
  | zero => exact h
  | succ left ih =>
    have hkept : (w.nextLevel g o (d + 1)).truncated = false := by
      rw [← Bool.not_eq_true]
      intro hnext
      rw [Walk.levels, truncated_levels left hnext] at ht
      cases ht
    have hrest := ih (h.nextLevel hkept) ht
    rw [Nat.add_assoc, Nat.add_comm 1 left] at hrest
    exact hrest

end Reached

end ArchFacts.Graph.Walk
