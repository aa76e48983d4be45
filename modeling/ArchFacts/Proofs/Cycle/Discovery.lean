import ArchFacts.Proofs.Cycle.Partition
import Mathlib.Data.List.Chain

/-!
# The order in which the members of a component are found

The members of a component stand in the order in which the search found them. When it finds a node,
the node that tops the stack is either the one being explored, and an edge leads from it to the new
node, or its edges have all been followed, to nodes found before. So a member has an edge to the
next one if it has an edge to any that comes after (`component_neighbours`). Otherwise the search
had gone back, and the next member was found from an earlier one.
-/

namespace ArchFacts.Cycle

open DirectedGraph

variable {g : DirectedGraph}

/-- Of two nodes that stand above each other on the stack, `v` and then `w`: `w` was found along an
edge from `v`, or after all that the edges of `v` lead to. -/
def FoundNext (found : List g.Node) (v w : g.Node) : Prop :=
  g.Adjacent v w ∨ ∀ u, g.Adjacent v u → u ∈ found ∧ found.idxOf u < found.idxOf w

/-- Every member has an edge to the next one, or none to any that comes after. -/
def Neighbourly (g : DirectedGraph) (members : List g.Node) : Prop :=
  ∀ before v w after, members = before ++ v :: w :: after →
    g.Adjacent v w ∨ ∀ u ∈ w :: after, ¬g.Adjacent v u

theorem FoundNext.mono {found : List g.Node} {v w : g.Node} (h : FoundNext found v w)
    (hw : w ∈ found) (more : List g.Node) : FoundNext (found ++ more) v w := by
  refine h.imp_right fun hall u hvu => ?_
  obtain ⟨hu, hlt⟩ := hall u hvu
  rw [List.idxOf_append_of_mem hu, List.idxOf_append_of_mem hw]
  exact ⟨List.mem_append_left _ hu, hlt⟩

/-- The node that tops the stack is the one being explored, or all its edges have been followed. -/
theorem Linked.top_followed {found stack : List g.Node} {frame : Frame g} {outer : List (Frame g)}
    (h : Linked found (frame :: outer) stack) (hd : Descending found stack) {v : g.Node}
    (hv : v ∈ stack.head?) : v = frame.node ∨ ∀ u, g.Adjacent v u → u ∈ found := by
  cases h with
  | @cons _ _ above below sound tree rest =>
    cases above with
    | nil => exact Or.inl (Option.some.inj hv).symm
    | cons top above =>
      obtain rfl : top = v := Option.some.inj hv
      refine Or.inr fun u hu => ?_
      rcases sound.followed top (.tail _ (.head _)) u hu with ⟨hfound, -⟩ | ⟨hnode, -⟩
      · exact hfound
      · exact absurd (hnode ▸ List.mem_cons_self) hd.notMem_above

namespace Search

variable {s : Search g}

/-- Whatever stands above each other on the stack was found so, and the components show it. -/
structure FoundInTurn (s : Search g) : Prop where
  stack : s.stack.IsChain fun w v => FoundNext s.found v w
  components : ∀ c ∈ s.components, Neighbourly g c

namespace FoundInTurn

theorem start : (Search.start : Search g).FoundInTurn where
  stack := List.isChain_nil
  components _ hc := absurd hc List.not_mem_nil

/-- The frames do not matter. -/
theorem reframe (hs : s.FoundInTurn) (frames : List (Frame g)) :
    FoundInTurn { s with frames } :=
  ⟨hs.stack, hs.components⟩

/-- Finding a node when all edges of the last one have been followed, or along an edge from it. -/
theorem enter (hs : s.FoundInTurn) (h : s.Invariant) {next : g.Node} (hnext : next ∉ s.found)
    (htop : ∀ v ∈ s.stack.head?, g.Adjacent v next ∨ ∀ u, g.Adjacent v u → u ∈ s.found)
    (frames : List (Frame g)) : (Search.enter next { s with frames }).FoundInTurn where
  stack := by
    have hmono : s.stack.IsChain fun w v => FoundNext (s.found ++ [next]) v w :=
      hs.stack.imp_of_mem_imp fun w v hw _ hfound => hfound.mono (h.found_of_stack hw) _
    refine List.IsChain.cons hmono fun v hv => (htop v hv).imp_right fun hall u hu => ?_
    exact ⟨List.mem_append_left _ (hall u hu), idxOf_lt_of_new (hall u hu) hnext⟩
  components := hs.components

/-- What is taken off the stack as a component stands in order. -/
theorem neighbourly_of_stack {found above below : List g.Node} {node : g.Node}
    (hstack : (above ++ node :: below).IsChain fun w v => FoundNext found v w)
    (hd : Descending found (above ++ node :: below)) :
    Neighbourly g (above ++ [node]).reverse := by
  intro before v w after hsplit
  have hpiece : above ++ node :: below = after.reverse ++ w :: v :: (before.reverse ++ below) := by
    have hreverse := congrArg (List.reverse · ++ below) hsplit
    simpa using hreverse
  rw [hpiece] at hstack hd
  refine (List.isChain_append_cons_cons.mp hstack).2.1.imp_right fun hall u hu hvu => ?_
  have hlt := (hall u hvu).2
  rcases List.mem_cons.mp hu with rfl | hu
  · exact Nat.lt_irrefl _ hlt
  · exact Nat.lt_asymm hlt (hd.lt_above (List.mem_reverse.mpr hu))

theorem complete (hs : s.FoundInTurn) (h : s.Invariant) {node : g.Node} {above below : List g.Node}
    (hstack : s.stack = above ++ node :: below) (frames : List (Frame g)) :
    (Search.complete node { s with frames }).FoundInTurn := by
  have hd := h.descending
  have hchain := hs.stack
  rw [hstack] at hd hchain
  unfold Search.complete
  simp only [hstack, hd.takeWhile_ne, hd.tail_dropWhile_ne]
  refine ⟨hchain.right_of_append.tail, fun c hc => ?_⟩
  rcases List.mem_append.mp hc with hc | hc
  · exact hs.components c hc
  · obtain rfl := List.mem_singleton.mp hc
    exact neighbourly_of_stack hchain hd

theorem step (h : s.Invariant) (hs : s.FoundInTurn) : s.step.FoundInTurn := by
  obtain ⟨frames, heq⟩ | ⟨frame, outer, next, frames, hframes, hadjacent, hnext, heq⟩ |
    ⟨above, node, below, frames, hstack, heq⟩ := h.step_cases
  · rw [heq]
    exact hs.reframe frames
  · rw [heq]
    refine hs.enter h hnext (fun v hv => ?_) frames
    have hlinked := h.linked
    rw [hframes] at hlinked
    rcases hlinked.top_followed h.descending hv with rfl | hall
    · exact Or.inl hadjacent
    · exact Or.inr hall
  · rw [heq]
    exact hs.complete h hstack frames

end FoundInTurn

end Search

theorem neighbourly_componentNodes (g : DirectedGraph) :
    ∀ c ∈ componentNodes g, Neighbourly g c := by
  have hturn : (g.nodes.foldl Search.visit Search.start).FoundInTurn := by
    refine Search.Rest.start.visit_all_induction (fun s hrest root hroot hs => ?_)
      (fun s h hs => hs.step h) .start g.nodes
    -- a root is found with nothing on the stack
    refine hs.enter hrest.invariant hroot (fun v hv => ?_) s.frames
    rw [hrest.stack] at hv
    cases hv
  exact hturn.components

/-- **A member of a component has an edge to the next one exactly if it has one to any that comes
after.** -/
theorem component_neighbours {c before after : List g.Node} {v w : g.Node}
    (hc : c ∈ componentNodes g) (hsplit : c = before ++ v :: w :: after) :
    g.Adjacent v w ↔ ∃ u ∈ w :: after, g.Adjacent v u := by
  constructor
  · intro h
    exact ⟨w, List.mem_cons_self, h⟩
  · rintro ⟨u, hu, hvu⟩
    rcases neighbourly_componentNodes g c hc before v w after hsplit with hvw | hnone
    · exact hvw
    · exact absurd hvu (hnone u hu)

end ArchFacts.Cycle
