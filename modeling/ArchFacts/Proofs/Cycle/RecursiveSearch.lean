import ArchFacts.Proofs.Cycle.CompletionOrder
import ArchFacts.Proofs.Cycle.Ledger

/-!
# Frames in place of calls

The search with frames notes the same as the recursive one (`Matches`). A call leaves the low links
of the nodes found before alone, so that of a node that is being explored stays what its frame says
while the calls within it go on. By induction on how many nodes have no number, exploring from a
node that has just been found comes to the point where its frame is left with the notes that the
call makes, whatever frames are outside of it (`Search.simulated`). Between two roots there is no
frame, so both searches find the same components (`components_eq_recursive`).
-/

namespace ArchFacts.Cycle

open DirectedGraph

variable {g : DirectedGraph}

namespace Search

variable {s : Search g} {t : Ledger g}

/-- A point of the search with frames where the recursive one has noted the same. -/
structure Matches (s : Search g) (t : Ledger g) : Prop where
  index : ∀ v n, t.index v = some n ↔ v ∈ s.found ∧ s.number v = n
  counter : t.counter = s.found.length
  stack : t.stack = s.stack
  onStack : ∀ v, t.onStack v = true ↔ v ∈ s.stack
  components : t.components = s.components

namespace Matches

theorem start : Matches (Search.start : Search g) .blank :=
  ⟨by simp [Ledger.blank, Search.start], rfl, rfl, by simp [Ledger.blank, Search.start], rfl⟩

/-- The frames do not matter. -/
theorem reframe (h : Matches s t) (frames : List (Frame g)) : Matches { s with frames } t :=
  ⟨h.index, h.counter, h.stack, h.onStack, h.components⟩

/-- Neither do the low links. -/
theorem lower (h : Matches s t) (v : g.Node) (number : Nat) : Matches s (t.lower v number) :=
  ⟨h.index, h.counter, h.stack, h.onStack, h.components⟩

theorem index_of_found (h : Matches s t) {v : g.Node} (hv : v ∈ s.found) :
    t.index v = some (s.number v) :=
  (h.index v _).mpr ⟨hv, rfl⟩

theorem index_eq_none_iff (h : Matches s t) {v : g.Node} : t.index v = none ↔ v ∉ s.found := by
  rw [Option.eq_none_iff_forall_ne_some]
  constructor
  · exact fun hnone hv => hnone _ (h.index_of_found hv)
  · exact fun hnew n hn => hnew ((h.index v n).mp hn).1

theorem enter (h : Matches s t) {v : g.Node} (hv : v ∉ s.found) :
    Matches (s.enter v) (t.enter v) where
  index w n := by
    by_cases hw : w = v
    · obtain rfl := hw
      simp [Ledger.enter, Search.enter, number, h.counter, List.idxOf_append_of_notMem hv]
    · by_cases hfound : w ∈ s.found
      · simp [Ledger.enter, Search.enter, number, hw, h.index, hfound,
          List.idxOf_append_of_mem hfound]
      · simp [Ledger.enter, Search.enter, hw, h.index, hfound]
  counter := by simp [Ledger.enter, Search.enter, h.counter]
  stack := by simp [Ledger.enter, Search.enter, h.stack]
  onStack w := by
    by_cases hw : w = v
    · simp [Ledger.enter, Search.enter, hw]
    · simp [Ledger.enter, Search.enter, hw, h.onStack]
  components := h.components

theorem popTo_eq {found above below : List g.Node} {v : g.Node}
    (h : Descending found (above ++ v :: below)) :
    Ledger.popTo v (above ++ v :: below) = (above ++ [v], below) := by
  have habove := h.notMem_above
  clear h
  induction above with
  | nil => simp [Ledger.popTo]
  | cons w rest ih =>
    rw [List.mem_cons, not_or] at habove
    rw [List.cons_append, Ledger.popTo, if_neg fun hwv => habove.1 hwv.symm, ih habove.2]
    rfl

theorem complete (h : Matches s t) (hs : s.Invariant) {v : g.Node} {above below : List g.Node}
    (hstack : s.stack = above ++ v :: below) :
    Matches (s.complete v) (t.complete v) := by
  have hd := hs.descending
  rw [hstack] at hd
  have hpop : Ledger.popTo v t.stack = (above ++ [v], below) := by
    rw [h.stack, hstack, popTo_eq hd]
  unfold Search.complete Ledger.complete
  simp only [hstack, hd.takeWhile_ne, hd.tail_dropWhile_ne, hpop, h.components]
  refine ⟨h.index, h.counter, rfl, fun w => ?_, rfl⟩
  by_cases hw : w ∈ below
  · have hpiece : w ∉ above ++ [v] := hd.notMem_piece hw
    simp [h.onStack, hstack, hw, hpiece]
  · simp [h.onStack, hstack, hw]
    tauto

/-- Leaving a node is the same for both. -/
theorem leave (h : Matches s t) (hs : s.Invariant) {v : g.Node} {outer : List (Frame g)}
    (hframes : s.frames = ⟨v, t.lowlink v, []⟩ :: outer) :
    Matches s.step (t.leave v) ∧ s.step.frames = Search.lower (t.lowlink v) outer := by
  have hlinked := hs.linked
  rw [hframes] at hlinked
  have hv : v ∈ s.found := hs.found_of_stack hlinked.node_mem
  have hindex : t.index v = some (s.number v) := h.index_of_found hv
  rw [step_leave hframes]
  unfold Ledger.leave
  by_cases hlow : t.lowlink v = s.number v
  · obtain ⟨above, below, hstack, -⟩ := hlinked.complete hs.descending hlow
    rw [if_pos hlow, if_pos (hindex.trans (congrArg some hlow.symm))]
    exact ⟨(h.complete hs hstack).reframe _, rfl⟩
  · rw [if_neg hlow, if_neg fun hsame => hlow (Option.some.inj (hsame.symm.trans hindex))]
    exact ⟨h.reframe _, rfl⟩

end Matches

/-- Exploring on from a point comes to one with these frames where the ledger is `t`. -/
def ComesTo (s : Search g) (frames : List (Frame g)) (t : Ledger g) : Prop :=
  ∃ s' : Search g, s'.Invariant ∧ s'.explore = s.explore ∧ s'.frames = frames ∧ Matches s' t

theorem ComesTo.of_step {frames : List (Frame g)} (hs : s.frames ≠ [])
    (h : ComesTo s.step frames t) : ComesTo s frames t := by
  have hexplore : s.explore = s.step.explore := by
    rw [explore, dif_neg hs]
  unfold ComesTo
  rw [hexplore]
  exact h

theorem ComesTo.trans {u : Ledger g} {frames frames' : List (Frame g)} (h : ComesTo s frames t)
    (hnext : ∀ s' : Search g, s'.Invariant → s'.frames = frames → Matches s' t →
      ComesTo s' frames' u) : ComesTo s frames' u := by
  obtain ⟨s', hs', hexplore, hframes, hmatches⟩ := h
  have hcomes := hnext s' hs' hframes hmatches
  unfold ComesTo at hcomes ⊢
  rwa [hexplore] at hcomes

/-- A call from this ledger does what exploring does with a frame of its own: that comes to the end
of the frame with the same notes. -/
def Simulated (t : Ledger g) : Prop :=
  ∀ (s : Search g) (v : g.Node) (hv : t.index v = none), Matches s t → (s.enter v).Invariant →
    ComesTo (s.enter v) (Search.lower ((t.connect v hv).1.lowlink v) s.frames) (t.connect v hv).1

/-- Following an edge. -/
theorem comesTo_follow (hcall : Simulated t) (hs : s.Invariant) (h : Matches s t) {v w : g.Node}
    {rest : List g.Node} {outer : List (Frame g)}
    (hframes : s.frames = ⟨v, t.lowlink v, w :: rest⟩ :: outer) :
    ComesTo s (⟨v, (t.follow v w).lowlink v, rest⟩ :: outer) (t.follow v w) := by
  have hlinked := hs.linked
  rw [hframes] at hlinked
  have hv : v ∈ s.found := hs.found_of_stack hlinked.node_mem
  have hstep := hs.step
  refine .of_step (hframes ▸ List.cons_ne_nil _ _) ?_
  cases hw : t.index w with
  | none =>
    have hnew : w ∉ s.found := h.index_eq_none_iff.mp hw
    rw [step_enter hframes hnew] at hstep ⊢
    obtain ⟨s', hs', hexplore, hframes', h'⟩ := hcall _ w hw (h.reframe _) hstep
    have hlow : (t.connect w hw).1.lowlink v = t.lowlink v := by
      refine (Ledger.keepsBut_connect hw v ?_).2 fun hvw => hnew (hvw ▸ hv)
      exact fun hnone => h.index_eq_none_iff.mp hnone hv
    rw [Ledger.follow_none hw]
    refine ⟨s', hs', hexplore, hframes'.trans ?_, h'.lower v _⟩
    simp [Search.lower, Ledger.lower, hlow]
  | some number =>
    obtain ⟨hfound, rfl⟩ := (h.index w number).mp hw
    rw [Ledger.follow_some hw]
    by_cases hstacked : w ∈ s.stack
    · rw [step_merge hframes hfound hstacked] at hstep ⊢
      rw [if_pos ((h.onStack w).mpr hstacked)]
      refine ⟨_, hstep, rfl, ?_, (h.reframe _).lower v _⟩
      simp [Ledger.lower]
    · rw [step_pass hframes hfound hstacked] at hstep ⊢
      rw [if_neg (mt (h.onStack w).mp hstacked)]
      exact ⟨_, hstep, rfl, rfl, h.reframe _⟩

/-- Following all edges of a node. -/
theorem comesTo_foldl_follow
    (hcalls : ∀ u : Ledger g, u.unnumbered ≤ t.unnumbered → Simulated u) (hs : s.Invariant)
    (h : Matches s t) {v : g.Node} {pending : List g.Node} {outer : List (Frame g)}
    (hframes : s.frames = ⟨v, t.lowlink v, pending⟩ :: outer) :
    ComesTo s (⟨v, (pending.foldl (Ledger.follow v) t).lowlink v, []⟩ :: outer)
      (pending.foldl (Ledger.follow v) t) := by
  induction pending generalizing s t with
  | nil => exact ⟨s, hs, rfl, hframes, h⟩
  | cons w rest ih =>
    refine (comesTo_follow (hcalls t (Nat.le_refl _)) hs h hframes).trans
      fun s' hs' hframes' h' => ih (fun u hu => ?_) hs' h' hframes'
    exact hcalls u (Nat.le_trans hu (Ledger.unnumbered_follow_le v w t))

/-- Leaving a node. -/
theorem comesTo_leave (hs : s.Invariant) (h : Matches s t) {v : g.Node} {outer : List (Frame g)}
    (hframes : s.frames = ⟨v, t.lowlink v, []⟩ :: outer) :
    ComesTo s (Search.lower ((t.leave v).lowlink v) outer) (t.leave v) := by
  have hlow : (t.leave v).lowlink v = t.lowlink v := by
    unfold Ledger.leave
    split <;> rfl
  obtain ⟨hleave, hframes'⟩ := h.leave hs hframes
  refine .of_step (hframes ▸ List.cons_ne_nil _ _) ⟨_, hs.step, rfl, ?_, hleave⟩
  rw [hframes', hlow]

/-- Every call does what exploring does with a frame of its own. -/
theorem simulated (t : Ledger g) : Simulated t := by
  obtain ⟨n, hn⟩ : ∃ n, t.unnumbered < n := ⟨_, Nat.lt_succ_self _⟩
  induction n generalizing t with
  | zero => exact absurd hn (Nat.not_lt_zero _)
  | succ n ih =>
    intro s v hv h hs
    have hless : (t.enter v).unnumbered < n :=
      Nat.lt_of_lt_of_le (Ledger.unnumbered_enter hv) (Nat.le_of_lt_succ hn)
    have hframes : (s.enter v).frames =
        ⟨v, (t.enter v).lowlink v, g.successors v⟩ :: s.frames := by
      simp [Search.enter, Ledger.enter, h.counter]
    rw [Ledger.connect_eq]
    refine (comesTo_foldl_follow (fun u hu => ih u (Nat.lt_of_le_of_lt hu hless)) hs
      (h.enter (h.index_eq_none_iff.mp hv)) hframes).trans fun s' hs' hframes' h' => ?_
    exact comesTo_leave hs' h' hframes'

theorem matches_visit (h : Matches s t) (hs : s.Rest) (root : g.Node) :
    Matches (s.visit root) (t.visit root) := by
  unfold Search.visit Ledger.visit
  by_cases hroot : root ∈ s.found
  · rw [if_pos hroot, dif_neg fun hnone => h.index_eq_none_iff.mp hnone hroot]
    exact h
  · have hnone := h.index_eq_none_iff.mpr hroot
    rw [if_neg hroot, dif_pos hnone]
    obtain ⟨s', -, hexplore, hframes, h'⟩ := simulated t s root hnone h (hs.enter hroot)
    -- no frame is left, so exploring ends there
    rw [hs.frames, Search.lower] at hframes
    rw [← hexplore, explore, dif_pos hframes]
    exact h'

theorem matches_visit_all (h : Matches s t) (hs : s.Rest) (roots : List g.Node) :
    Matches (roots.foldl Search.visit s) (roots.foldl Ledger.visit t) := by
  induction roots generalizing s t with
  | nil => exact h
  | cons root rest ih => exact ih (matches_visit h hs root) (hs.visit root)

end Search

/-- The recursive search ends with the notes of the other one. -/
theorem matches_ledger (g : DirectedGraph) :
    (g.nodes.foldl Search.visit Search.start).Matches (ledger g) :=
  Search.matches_visit_all .start .start g.nodes

theorem components_ledger (g : DirectedGraph) : (ledger g).components = componentNodes g :=
  (matches_ledger g).components

/-- **The search with frames finds what the recursive one finds**: the same components in the same
order, the members of each in the same order, and that is the order in which they were numbered. -/
theorem components_eq_recursive (g : DirectedGraph) :
    components g = recursiveComponents g ∧
      ∀ c ∈ (ledger g).components, c.Pairwise fun v w =>
        ∃ m n, (ledger g).index v = some m ∧ (ledger g).index w = some n ∧ m < n := by
  have hmatches := matches_ledger g
  refine ⟨?_, fun c hc => ?_⟩
  · rw [components, recursiveComponents, components_ledger]
  · rw [components_ledger] at hc
    refine (pairwise_discovered hc).imp fun {v w} hlt => ?_
    refine ⟨_, _, ?_, ?_, hlt⟩
    · exact hmatches.index_of_found (mem_discovered v)
    · exact hmatches.index_of_found (mem_discovered w)

theorem components_eq_recursive_twoCircles :
    recursiveComponents twoCircles = [["c", "d"], ["a", "b"]] ∧
      [⟨2, by decide⟩, ⟨3, by decide⟩] ∈ (ledger twoCircles).components ∧
      ∃ m n, (ledger twoCircles).index ⟨2, by decide⟩ = some m ∧
        (ledger twoCircles).index ⟨3, by decide⟩ = some n ∧ m < n := by
  obtain ⟨hlabels, hranked⟩ := components_eq_recursive twoCircles
  have hmem : [⟨2, by decide⟩, ⟨3, by decide⟩] ∈ (ledger twoCircles).components := by
    rw [components_ledger, componentNodes_twoCircles]
    exact List.mem_cons_self
  refine ⟨?_, hmem, (List.pairwise_cons.mp (hranked _ hmem)).1 _ List.mem_cons_self⟩
  rw [← hlabels, components, componentNodes_twoCircles]
  decide

end ArchFacts.Cycle
