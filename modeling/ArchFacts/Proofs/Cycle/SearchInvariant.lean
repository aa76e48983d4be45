import ArchFacts.Cycle.Components
import ArchFacts.Proofs.Cycle.Reachability

/-!
# The invariant of the search for components

The frames cut the stack into pieces: each frame owns its node and the nodes above it up to the next
inner frame's node. What holds of one frame (`Frame.Sound`) speaks of its own piece and of the nodes
*below* it, which belong to the frames outside:

* the nodes of the piece are connected, and all edges that were followed from them lead to nodes
  that were found;
* the low point of the frame is the number of a node that its node reaches and that is its node or
  stands below, and none of the followed edges leads to a node below with a smaller number.

`Linked` joins the pieces along the edges by which the search came from one frame to the next. So a
node below a frame reaches the frame's node (`Linked.reaches_head`): if the low point of a finished
frame lies below, its piece is connected to the one outside and joins it. If the low point is the
node itself, no edge leads from the piece to anything below, and the piece is a component.
-/

namespace ArchFacts.Cycle

open DirectedGraph

variable {g : DirectedGraph}

/-! ### One frame -/

/-- What holds of a frame that owns its node and those `above` it on the stack. -/
structure Frame.Sound (found : List g.Node) (frame : Frame g) (above below : List g.Node) :
    Prop where
  connected : ∀ v ∈ above, g.Connected frame.node v
  pending_adjacent : ∀ w ∈ frame.pending, g.Adjacent frame.node w
  followed : ∀ v ∈ frame.node :: above, ∀ w, g.Adjacent v w →
    (w ∈ found ∧ (w ∈ below → frame.low ≤ found.idxOf w)) ∨ (v = frame.node ∧ w ∈ frame.pending)
  low_reached : ∃ u ∈ frame.node :: below, found.idxOf u = frame.low ∧ g.Reaches frame.node u

/-- A node found before has a smaller number than a new one. -/
theorem idxOf_lt_of_new {found : List g.Node} {u v : g.Node} (hu : u ∈ found) (hv : v ∉ found) :
    (found ++ [v]).idxOf u < (found ++ [v]).idxOf v := by
  rw [List.idxOf_append_of_mem hu, List.idxOf_append_of_notMem hv]
  exact Nat.lt_add_right _ (List.idxOf_lt_length_of_mem hu)

/-- The numbers of the nodes descend along the stack. -/
def Descending (found stack : List g.Node) : Prop :=
  stack.Pairwise fun v w => found.idxOf w < found.idxOf v

namespace Descending

variable {found above below : List g.Node} {v w : g.Node}

theorem below_lt (h : Descending found (above ++ v :: below)) (hw : w ∈ below) :
    found.idxOf w < found.idxOf v :=
  (List.pairwise_cons.mp (List.pairwise_append.mp h).2.1).1 w hw

theorem lt_above (h : Descending found (above ++ v :: below)) (hw : w ∈ above) :
    found.idxOf v < found.idxOf w :=
  (List.pairwise_append.mp h).2.2 w hw v List.mem_cons_self

theorem outside (h : Descending found (above ++ v :: below)) : Descending found below :=
  (List.pairwise_cons.mp (List.pairwise_append.mp h).2.1).2

theorem notMem_above (h : Descending found (above ++ v :: below)) : v ∉ above :=
  fun hv => Nat.lt_irrefl _ (h.lt_above hv)

/-- What is on the stack with a number that is not above that of `v` is `v` or stands below. -/
theorem mem_below (h : Descending found (above ++ v :: below)) (hw : w ∈ above ++ v :: below)
    (hle : found.idxOf w ≤ found.idxOf v) : w ∈ v :: below := by
  rcases List.mem_append.mp hw with hw | hw
  · exact absurd (h.lt_above hw) (Nat.not_lt.mpr hle)
  · exact hw

theorem notMem_piece (h : Descending found (above ++ v :: below)) (hw : w ∈ below) :
    w ∉ above ++ [v] := by
  intro hpiece
  rcases List.mem_append.mp hpiece with hpiece | hpiece
  · exact Nat.lt_asymm (h.lt_above hpiece) (h.below_lt hw)
  · obtain rfl := List.mem_singleton.mp hpiece
    exact Nat.lt_irrefl _ (h.below_lt hw)

/-- The search takes off the stack what stands above a node. -/
theorem takeWhile_ne (h : Descending found (above ++ v :: below)) :
    (above ++ v :: below).takeWhile (· ≠ v) = above := by
  rw [List.takeWhile_append_of_pos fun w hw => ?_]
  · simp
  · exact decide_eq_true fun e => h.notMem_above (e ▸ hw)

/-- The search leaves on the stack what stands below a node. -/
theorem tail_dropWhile_ne (h : Descending found (above ++ v :: below)) :
    ((above ++ v :: below).dropWhile (· ≠ v)).tail = below := by
  rw [List.dropWhile_append_of_pos fun w hw => ?_]
  · simp
  · exact decide_eq_true fun e => h.notMem_above (e ▸ hw)

/-- A node that has just been found has the greatest number. -/
theorem entered {stack : List g.Node} (h : Descending found stack) (hstack : ∀ u ∈ stack, u ∈ found)
    (hv : v ∉ found) : Descending (found ++ [v]) (v :: stack) := by
  refine List.pairwise_cons.mpr ⟨fun u hu => idxOf_lt_of_new (hstack u hu) hv, ?_⟩
  refine h.imp_of_mem fun {a b} ha hb hab => ?_
  rw [List.idxOf_append_of_mem (hstack a ha), List.idxOf_append_of_mem (hstack b hb)]
  exact hab

end Descending

namespace Frame.Sound

variable {found above below : List g.Node} {frame : Frame g}

theorem low_le (h : frame.Sound found above below)
    (hd : Descending found (above ++ frame.node :: below)) :
    frame.low ≤ found.idxOf frame.node := by
  obtain ⟨u, hu, hlow, -⟩ := h.low_reached
  rcases List.mem_cons.mp hu with rfl | hu
  · exact Nat.le_of_eq hlow.symm
  · exact hlow ▸ Nat.le_of_lt (hd.below_lt hu)

/-- Finding more nodes changes nothing for the frames that are there. -/
theorem mono (h : frame.Sound found above below) (hnode : frame.node ∈ found)
    (hbelow : ∀ v ∈ below, v ∈ found) (more : List g.Node) :
    frame.Sound (found ++ more) above below where
  connected := h.connected
  pending_adjacent := h.pending_adjacent
  followed v hv w hvw := by
    rcases h.followed v hv w hvw with ⟨hw, hle⟩ | hpending
    · left
      refine ⟨List.mem_append_left _ hw, fun hwb => ?_⟩
      rw [List.idxOf_append_of_mem hw]
      exact hle hwb
    · exact Or.inr hpending
  low_reached := by
    obtain ⟨u, hu, hlow, hreach⟩ := h.low_reached
    refine ⟨u, hu, ?_, hreach⟩
    have hfound : u ∈ found := by
      rcases List.mem_cons.mp hu with rfl | hu
      · exact hnode
      · exact hbelow u hu
    rw [List.idxOf_append_of_mem hfound, hlow]

/-- A node that has just been found. -/
theorem entered {v : g.Node} (hv : v ∉ found) (below : List g.Node) :
    Frame.Sound (found ++ [v]) ⟨v, found.length, g.successors v⟩ [] below where
  connected _ hw := absurd hw List.not_mem_nil
  pending_adjacent w hw := mem_successors.mp hw
  followed u hu w huw := by
    obtain rfl := List.mem_singleton.mp hu
    exact Or.inr ⟨rfl, mem_successors.mpr huw⟩
  low_reached := by
    refine ⟨v, List.mem_cons_self, ?_, .refl v⟩
    rw [List.idxOf_append_of_notMem hv]
    simp

/-- Passing over the next edge, once its target is found and the low point is low enough for it. -/
theorem advance {node next : g.Node} {low low' : Nat} {rest : List g.Node}
    (h : Frame.Sound found ⟨node, low, next :: rest⟩ above below) (hle : low' ≤ low)
    (hnext : next ∈ found ∧ (next ∈ below → low' ≤ found.idxOf next))
    (hlow : ∃ u ∈ node :: below, found.idxOf u = low' ∧ g.Reaches node u) :
    Frame.Sound found ⟨node, low', rest⟩ above below where
  connected := h.connected
  pending_adjacent w hw := h.pending_adjacent w (List.mem_cons_of_mem _ hw)
  followed v hv w hvw := by
    rcases h.followed v hv w hvw with ⟨hw, hbelow⟩ | ⟨rfl, hw⟩
    · exact Or.inl ⟨hw, fun hwb => Nat.le_trans hle (hbelow hwb)⟩
    · rcases List.mem_cons.mp hw with rfl | hw
      · exact Or.inl hnext
      · exact Or.inr ⟨rfl, hw⟩
  low_reached := hlow

/-- A piece that is connected to the one outside of it joins it. -/
theorem merge {node : g.Node} {low : Nat} {parent : Frame g} {above' below' : List g.Node}
    (inner : Frame.Sound found ⟨node, low, []⟩ above (above' ++ parent.node :: below'))
    (outer : parent.Sound found above' below') (hnode : g.Connected parent.node node)
    (hlow : ∃ u ∈ parent.node :: below', found.idxOf u = min parent.low low ∧
      g.Reaches parent.node u) :
    Frame.Sound found { parent with low := min parent.low low } (above ++ node :: above') below' where
  connected v hv := by
    rcases List.mem_append.mp hv with hv | hv
    · exact hnode.trans (inner.connected v hv)
    · rcases List.mem_cons.mp hv with rfl | hv
      · exact hnode
      · exact outer.connected v hv
  pending_adjacent := outer.pending_adjacent
  followed v hv w hvw := by
    have hinner (hv : v ∈ node :: above) :
        w ∈ found ∧ (w ∈ below' → min parent.low low ≤ found.idxOf w) := by
      rcases inner.followed v hv w hvw with ⟨hw, hle⟩ | ⟨-, hw⟩
      · refine ⟨hw, fun hb => Nat.le_trans (Nat.min_le_right _ _) (hle ?_)⟩
        exact List.mem_append_right _ (List.mem_cons_of_mem _ hb)
      · exact absurd hw List.not_mem_nil
    have houter (hv : v ∈ parent.node :: above') :
        (w ∈ found ∧ (w ∈ below' → min parent.low low ≤ found.idxOf w)) ∨
          (v = parent.node ∧ w ∈ parent.pending) := by
      rcases outer.followed v hv w hvw with ⟨hw, hle⟩ | hpending
      · exact Or.inl ⟨hw, fun hb => Nat.le_trans (Nat.min_le_left _ _) (hle hb)⟩
      · exact Or.inr hpending
    rcases List.mem_cons.mp hv with rfl | hv
    · exact houter List.mem_cons_self
    · rcases List.mem_append.mp hv with hv | hv
      · exact Or.inl (hinner (List.mem_cons_of_mem _ hv))
      · rcases List.mem_cons.mp hv with rfl | hv
        · exact Or.inl (hinner List.mem_cons_self)
        · exact houter (List.mem_cons_of_mem _ hv)
  low_reached := hlow

end Frame.Sound

/-! ### All frames -/

/-- The stack is made of the pieces of the frames, and an edge leads from the node of every frame to
that of the next inner one. -/
inductive Linked (found : List g.Node) : List (Frame g) → List g.Node → Prop where
  | nil : Linked found [] []
  | cons {frame : Frame g} {outer : List (Frame g)} {above below : List g.Node}
      (sound : frame.Sound found above below)
      (tree : ∀ parent ∈ outer.head?, g.Adjacent parent.node frame.node)
      (rest : Linked found outer below) : Linked found (frame :: outer) (above ++ frame.node :: below)

namespace Linked

variable {found stack : List g.Node} {frames : List (Frame g)}

theorem mono (h : Linked found frames stack) (hstack : ∀ v ∈ stack, v ∈ found)
    (more : List g.Node) : Linked (found ++ more) frames stack := by
  induction h with
  | nil => exact .nil
  | cons sound tree rest ih =>
    have hbelow := fun v hv => hstack v (List.mem_append_right _ (List.mem_cons_of_mem _ hv))
    have hnode := hstack _ (List.mem_append_right _ List.mem_cons_self)
    exact .cons (sound.mono hnode hbelow more) tree (ih hbelow)

theorem stack_eq_nil (h : Linked found [] stack) : stack = [] := by
  cases h
  rfl

/-- Every node on the stack reaches the node of the innermost frame. -/
theorem reaches_head {frame : Frame g} {outer : List (Frame g)}
    (h : Linked found (frame :: outer) stack) : ∀ v ∈ stack, g.Reaches v frame.node := by
  -- from its own frame outwards in, along the edges between the frames
  generalize hf : frame :: outer = frames at h
  induction h generalizing frame outer with
  | nil => cases hf
  | @cons _ outer' above below sound tree rest ih =>
    obtain ⟨rfl, rfl⟩ := List.cons.inj hf
    intro v hv
    rcases List.mem_append.mp hv with hv | hv
    · exact (sound.connected v hv).2
    · rcases List.mem_cons.mp hv with rfl | hv
      · exact .refl _
      · cases outer with
        | nil =>
          rw [rest.stack_eq_nil] at hv
          exact absurd hv List.not_mem_nil
        | cons parent outer =>
          exact (ih rfl v hv).trans (tree parent rfl).reaches

/-- The node of the innermost frame is on the stack. -/
theorem node_mem {frame : Frame g} {outer : List (Frame g)}
    (h : Linked found (frame :: outer) stack) : frame.node ∈ stack := by
  cases h with
  | cons _ _ _ => exact List.mem_append_right _ List.mem_cons_self

variable {node next : g.Node} {low : Nat} {rest : List g.Node} {outer : List (Frame g)}

theorem pending_adjacent {frame : Frame g} (h : Linked found (frame :: outer) stack) :
    ∀ w ∈ frame.pending, g.Adjacent frame.node w := by
  cases h with
  | cons sound _ _ => exact sound.pending_adjacent

/-- The edge to a node that was not found is followed by finding it. -/
theorem follow_new (h : Linked found (⟨node, low, next :: rest⟩ :: outer) stack)
    (hstack : ∀ v ∈ stack, v ∈ found) (hnext : next ∉ found) :
    Linked (found ++ [next]) (⟨node, low, rest⟩ :: outer) stack := by
  have hnew : next ∉ stack := fun hs => hnext (hstack next hs)
  have hmono := h.mono hstack [next]
  cases hmono with
  | cons sound tree outside =>
    refine .cons (sound.advance (Nat.le_refl low) ⟨by simp, fun hb => ?_⟩ sound.low_reached) tree
      outside
    exact absurd (List.mem_append_right _ (List.mem_cons_of_mem _ hb)) hnew

/-- An edge to a node of a complete component is passed over. -/
theorem follow_complete (h : Linked found (⟨node, low, next :: rest⟩ :: outer) stack)
    (hnext : next ∈ found) (hstack : next ∉ stack) :
    Linked found (⟨node, low, rest⟩ :: outer) stack := by
  cases h with
  | cons sound tree outside =>
    refine .cons (sound.advance (Nat.le_refl low) ⟨hnext, fun hb => ?_⟩ sound.low_reached) tree
      outside
    exact absurd (List.mem_append_right _ (List.mem_cons_of_mem _ hb)) hstack

/-- An edge to a node on the stack lowers the low point to its number. -/
theorem follow_stacked (h : Linked found (⟨node, low, next :: rest⟩ :: outer) stack)
    (hd : Descending found stack) (hnext : next ∈ found) (hstack : next ∈ stack) :
    Linked found (⟨node, min low (found.idxOf next), rest⟩ :: outer) stack := by
  cases h with
  | @cons _ _ above below sound tree outside =>
    refine .cons (sound.advance (Nat.min_le_left _ _) ⟨hnext, fun _ => Nat.min_le_right _ _⟩ ?_) tree
      outside
    rcases Nat.le_total low (found.idxOf next) with hle | hle
    · rw [Nat.min_eq_left hle]
      exact sound.low_reached
    · rw [Nat.min_eq_right hle]
      have hbelow : next ∈ node :: below :=
        hd.mem_below hstack (Nat.le_trans hle (sound.low_le hd))
      exact ⟨next, hbelow, rfl, (sound.pending_adjacent next List.mem_cons_self).reaches⟩

/-- A finished frame whose low point lies below its node leaves its piece to the frame outside. -/
theorem leave (h : Linked found (⟨node, low, []⟩ :: outer) stack) (hd : Descending found stack)
    (hlow : low ≠ found.idxOf node) : Linked found (Search.lower low outer) stack := by
  cases h with
  | @cons _ _ above below sound tree outside =>
    obtain ⟨u, hu, hulow, hreach⟩ := sound.low_reached
    -- the low point is not the node of the frame, so some frame outside owns it
    have hubelow : u ∈ below := by
      rcases List.mem_cons.mp hu with rfl | hu
      · exact absurd hulow.symm hlow
      · exact hu
    cases outside with
    | nil => exact absurd hubelow List.not_mem_nil
    | @cons parent outer above' below' sound' tree' outside' =>
      have hd' := hd.outside
      have hnode : g.Connected parent.node node :=
        ⟨(tree parent rfl).reaches,
          hreach.trans ((Linked.cons sound' tree' outside').reaches_head u hubelow)⟩
      have hpiece : above ++ node :: (above' ++ parent.node :: below') =
          (above ++ node :: above') ++ parent.node :: below' := by simp
      rw [hpiece]
      have hmerged : Frame.Sound found { parent with low := min parent.low low }
          (above ++ node :: above') below' := by
        refine sound.merge sound' hnode ?_
        rcases Nat.le_total parent.low low with hle | hle
        · rw [Nat.min_eq_left hle]
          exact sound'.low_reached
        · rw [Nat.min_eq_right hle]
          have hbelow : u ∈ parent.node :: below' :=
            hd'.mem_below hubelow (hulow ▸ Nat.le_trans hle (sound'.low_le hd'))
          exact ⟨u, hbelow, hulow, hnode.1.trans hreach⟩
      exact .cons hmerged tree' outside'

/-- A finished frame whose low point is its node owns a component: its nodes are connected, and the
edges from them lead to themselves or to nodes that are not on the stack any more. -/
theorem complete (h : Linked found (⟨node, low, []⟩ :: outer) stack) (hd : Descending found stack)
    (hlow : low = found.idxOf node) :
    ∃ above below, stack = above ++ node :: below ∧ Linked found (Search.lower low outer) below ∧
      (∀ v ∈ node :: above, g.Connected node v) ∧
      ∀ v ∈ node :: above, ∀ w, g.Adjacent v w → w ∈ found ∧ w ∉ below := by
  cases h with
  | @cons _ _ above below sound tree outside =>
    refine ⟨above, below, rfl, ?_, fun v hv => ?_, fun v hv w hvw => ?_⟩
    · cases outside with
      | nil => exact .nil
      | @cons parent outer above' below' sound' tree' outside' =>
        -- the low point of the frame outside is lower already
        have hparent : parent.low ≤ low := by
          have hle := sound'.low_le hd.outside
          have hlt := hd.below_lt (List.mem_append_right above' List.mem_cons_self)
          exact Nat.le_trans hle (hlow ▸ Nat.le_of_lt hlt)
        rw [Search.lower, Nat.min_eq_left hparent]
        exact .cons sound' tree' outside'
    · rcases List.mem_cons.mp hv with rfl | hv
      · exact .refl _
      · exact sound.connected v hv
    · rcases sound.followed v hv w hvw with ⟨hw, hle⟩ | ⟨-, hw⟩
      · refine ⟨hw, fun hb => ?_⟩
        exact absurd (hd.below_lt hb) (Nat.not_lt.mpr (hlow ▸ hle hb))
      · exact absurd hw List.not_mem_nil

end Linked

/-! ### The search -/

namespace Search

/-- What holds at every point of the search. -/
structure Invariant (s : Search g) : Prop where
  nodup : s.found.Nodup
  split : (s.components.flatten ++ s.stack).Perm s.found
  descending : Descending s.found s.stack
  linked : Linked s.found s.frames s.stack
  settled : g.Settled s.components

theorem invariant_start : (start : Search g).Invariant :=
  ⟨List.nodup_nil, List.Perm.refl [], List.Pairwise.nil, .nil, .nil⟩

namespace Invariant

variable {s : Search g}

theorem found_of_stack (h : s.Invariant) {v : g.Node} (hv : v ∈ s.stack) : v ∈ s.found :=
  h.split.subset (List.mem_append_right _ hv)

theorem found_of_component (h : s.Invariant) {c : List g.Node} (hc : c ∈ s.components)
    {v : g.Node} (hv : v ∈ c) : v ∈ s.found :=
  h.split.subset (List.mem_append_left _ (List.mem_flatten_of_mem hc hv))

/-- Other frames may stand for the same stack. -/
theorem reframe (h : s.Invariant) {frames : List (Frame g)}
    (hlinked : Linked s.found frames s.stack) : Invariant { s with frames } :=
  ⟨h.nodup, h.split, h.descending, hlinked, h.settled⟩

/-- Beginning to explore a node that the edge followed last leads to, or a root. -/
theorem enter (h : s.Invariant) {frames : List (Frame g)} {v : g.Node} (hv : v ∉ s.found)
    (hlinked : Linked (s.found ++ [v]) frames s.stack)
    (htree : ∀ parent ∈ frames.head?, g.Adjacent parent.node v) :
    (Search.enter v { s with frames }).Invariant where
  nodup := by
    refine List.nodup_append.mpr ⟨h.nodup, by simp, fun a ha b hb hab => ?_⟩
    obtain rfl := List.mem_singleton.mp hb
    exact hv (hab ▸ ha)
  split := by
    have hperm : (s.components.flatten ++ v :: s.stack).Perm (v :: s.found) :=
      List.perm_middle.trans (h.split.cons v)
    exact hperm.trans (List.perm_append_singleton v s.found).symm
  descending := h.descending.entered (fun _ => h.found_of_stack) hv
  linked :=
    show Linked _ _ ([] ++ v :: s.stack) from .cons (.entered hv s.stack) htree hlinked
  settled := h.settled

/-- Taking a component off the stack. -/
theorem complete (h : s.Invariant) {node : g.Node} {above below : List g.Node}
    {frames : List (Frame g)} (hstack : s.stack = above ++ node :: below)
    (hlinked : Linked s.found frames below)
    (hconnected : ∀ v ∈ node :: above, g.Connected node v)
    (hleave : ∀ v ∈ node :: above, ∀ w, g.Adjacent v w → w ∈ s.found ∧ w ∉ below) :
    (Search.complete node { s with frames }).Invariant := by
  have hd := h.descending
  rw [hstack] at hd
  have hmem (v : g.Node) : v ∈ (above ++ [node]).reverse ↔ v ∈ node :: above := by
    simp
  unfold Search.complete
  simp only [hstack, hd.takeWhile_ne, hd.tail_dropWhile_ne]
  -- the piece moves from the stack to the components, and no node gets lost
  have hsplit : ((s.components ++ [(above ++ [node]).reverse]).flatten ++ below).Perm s.found := by
    refine List.Perm.trans ?_ h.split
    rw [hstack, List.flatten_append, List.append_assoc]
    refine List.Perm.append_left _ ?_
    simpa using ((above ++ [node]).reverse_perm).append_right below
  refine ⟨h.nodup, hsplit, hd.outside, hlinked, h.settled.concat ?_ (fun v hv w hw => ?_) (by simp)⟩
  · intro v hv w hvw
    rw [List.flatten_append, List.mem_append] at hv ⊢
    rcases hv with hv | hv
    · exact Or.inl (h.settled.closed _ (List.prefix_refl _) v hv w hvw)
    · have hv : v ∈ node :: above := (hmem v).mp (by simpa using hv)
      obtain ⟨hw, hbelow⟩ := hleave v hv w hvw
      have hw := hsplit.mem_iff.mpr hw
      rw [List.mem_append, List.flatten_append, List.mem_append] at hw
      rcases hw with hw | hw
      · exact hw
      · exact absurd hw hbelow
  · exact (hconnected v ((hmem v).mp hv)).symm.trans (hconnected w ((hmem w).mp hw))

/-- **Every step keeps the invariant.** -/
theorem step (h : s.Invariant) : s.step.Invariant := by
  have hstack := fun v => h.found_of_stack (v := v)
  obtain ⟨found, stack, frames, components⟩ := s
  cases frames with
  | nil => exact h
  | cons frame outer =>
    obtain ⟨node, low, pending⟩ := frame
    cases pending with
    | nil =>
      -- the frame is finished: its node is the first of a component or not
      by_cases hlow : low = found.idxOf node
      · obtain ⟨above, below, hs, hlinked, hconnected, hleave⟩ :=
          h.linked.complete h.descending hlow
        have hstep := h.complete hs hlinked hconnected hleave
        simpa [Search.step, number, hlow] using hstep
      · have hlinked := h.linked.leave h.descending hlow
        simpa [Search.step, number, hlow] using h.reframe hlinked
    | cons next rest =>
      -- the next edge leads to a node that is on the stack, in a component or new
      by_cases hnext : next ∈ found
      · by_cases hs : next ∈ stack
        · have hlinked := h.linked.follow_stacked h.descending hnext hs
          simpa [Search.step, number, hnext, hs, lower] using h.reframe hlinked
        · have hlinked := h.linked.follow_complete hnext hs
          simpa [Search.step, hnext, hs] using h.reframe hlinked
      · have hlinked := h.linked.follow_new hstack hnext
        have hadjacent : g.Adjacent node next := h.linked.pending_adjacent next List.mem_cons_self
        have hstep := h.enter hnext hlinked fun parent hp => by
          obtain rfl := Option.some.inj hp
          exact hadjacent
        simpa [Search.step, hnext] using hstep

/-- What a step does: it follows an edge to a node that was found before or leaves a node, it finds
a node, or it completes a component. -/
theorem step_cases (h : s.Invariant) :
    (∃ frames, s.step = { s with frames }) ∨
    (∃ frame outer next frames, s.frames = frame :: outer ∧ g.Adjacent frame.node next ∧
      next ∉ s.found ∧ s.step = Search.enter next { s with frames }) ∨
    ∃ above node below frames, s.stack = above ++ node :: below ∧
      s.step = Search.complete node { s with frames } := by
  have hlinked := h.linked
  cases hframes : s.frames with
  | nil => exact Or.inl ⟨s.frames, step_rest hframes⟩
  | cons frame outer =>
    obtain ⟨node, low, pending⟩ := frame
    rw [hframes] at hlinked
    cases pending with
    | nil =>
      rw [step_leave hframes]
      by_cases hlow : low = s.number node
      · obtain ⟨above, below, hstack, -⟩ := hlinked.complete h.descending hlow
        rw [if_pos hlow]
        exact Or.inr (Or.inr ⟨above, node, below, _, hstack, rfl⟩)
      · rw [if_neg hlow]
        exact Or.inl ⟨_, rfl⟩
    | cons next rest =>
      by_cases hnext : next ∈ s.found
      · by_cases hstacked : next ∈ s.stack
        · exact Or.inl ⟨_, step_merge hframes hnext hstacked⟩
        · exact Or.inl ⟨_, step_pass hframes hnext hstacked⟩
      · have hadjacent := hlinked.pending_adjacent next List.mem_cons_self
        exact Or.inr (Or.inl ⟨_, outer, next, _, rfl, hadjacent, hnext, step_enter hframes hnext⟩)

end Invariant

end Search

end ArchFacts.Cycle
