import ArchFacts.Proofs.Cycle.Discovery
import Mathlib.Data.List.Flatten
import Mathlib.Data.List.Pairwise

/-!
# The order of the components

A component is complete when all that its members lead to is complete, so no edge leads from a
component to one that is listed later (`Settled.pairwise`). Its members are taken off the stack
together and stand in the order in which they were found (`Search.Ranked`). So the first is the one
by which the search entered the component, and a walk from there to any other member leads through
members only, because whatever it passes is connected to both ends.
-/

namespace ArchFacts

namespace DirectedGraph

variable {g : DirectedGraph}

/-- A walk leads from one node to another one and through some nodes only. -/
def ReachesWithin (g : DirectedGraph) (nodes : List g.Node) : g.Node → g.Node → Prop :=
  Relation.ReflTransGen fun v w => g.Adjacent v w ∧ v ∈ nodes ∧ w ∈ nodes

namespace Settled

variable {components : List (List g.Node)}

/-- No edge leads from a component to a later one. -/
theorem pairwise (h : g.Settled components) (hnodup : components.flatten.Nodup) :
    components.Pairwise fun c d => ∀ v ∈ c, ∀ w ∈ d, ¬g.Adjacent v w := by
  rw [List.pairwise_iff_getElem]
  intro i j hi hj hij v hv w hw hvw
  -- the components up to `c` are closed, and `d` is none of them
  have hfirst : v ∈ (components.take (i + 1)).flatten :=
    List.mem_flatten_of_mem (List.mem_take_iff_getElem.mpr ⟨i, by omega, rfl⟩) hv
  have hlater : w ∈ (components.drop (i + 1)).flatten :=
    List.mem_flatten_of_mem (List.mem_drop_iff_getElem.mpr ⟨j - (i + 1), by omega, by grind⟩) hw
  rw [← List.take_append_drop (i + 1) components, List.flatten_append] at hnodup
  exact List.disjoint_of_nodup_append hnodup
    (h.closed _ (List.take_prefix _ _) v hfirst w hvw) hlater

/-- What is connected to a member of a component is a member. -/
theorem mem_of_connected (h : g.Settled components) (hnodup : components.flatten.Nodup)
    (hall : ∀ v, v ∈ components.flatten) {c : List g.Node} (hc : c ∈ components) {v w : g.Node}
    (hv : v ∈ c) (hvw : g.Connected v w) : w ∈ c := by
  obtain ⟨d, hd, hv', hw⟩ := (h.same_component_iff hnodup hall v w).mpr hvw
  have hsymm : Std.Symm fun c d : List g.Node => c.Disjoint d := ⟨fun _ _ => List.disjoint_symm⟩
  by_cases hcd : c = d
  · exact hcd ▸ hw
  · exact absurd hv' ((List.nodup_flatten.mp hnodup).2.forall hc hd hcd hv)

/-- A walk between two members of a component stays in it. -/
theorem reachesWithin (h : g.Settled components) (hnodup : components.flatten.Nodup)
    (hall : ∀ v, v ∈ components.flatten) {c : List g.Node} (hc : c ∈ components) {v w : g.Node}
    (hv : v ∈ c) (hw : w ∈ c) : g.ReachesWithin c v w := by
  have hwalk : g.Reaches v w := (h.connected c hc v hv w hw).1
  induction hwalk using Relation.ReflTransGen.head_induction_on with
  | refl => exact .refl
  | @head v next hedge hrest ih =>
    -- the walk goes on to `w`, from which there is a way back to `v`
    have hback : g.Reaches next v := Reaches.trans hrest (h.connected c hc w hw v hv).1
    have hnext : next ∈ c :=
      h.mem_of_connected hnodup hall hc hv ⟨Adjacent.reaches hedge, hback⟩
    exact .head ⟨hedge, hv, hnext⟩ (ih hnext)

end Settled

end DirectedGraph

namespace Cycle

open DirectedGraph

variable {g : DirectedGraph}

namespace Search

variable {s : Search g}

/-- The members of every complete component stand in the order in which they were found. -/
def Ranked (s : Search g) : Prop :=
  ∀ c ∈ s.components, c.Pairwise fun v w => s.found.idxOf v < s.found.idxOf w

namespace Ranked

theorem enter (hs : s.Ranked) (h : s.Invariant) (next : g.Node) (frames : List (Frame g)) :
    (Search.enter next { s with frames }).Ranked := by
  intro c hc
  refine (hs c hc).imp_of_mem fun {v w} hv hw hlt => ?_
  change (s.found ++ [next]).idxOf v < (s.found ++ [next]).idxOf w
  rwa [List.idxOf_append_of_mem (h.found_of_component hc hv),
    List.idxOf_append_of_mem (h.found_of_component hc hw)]

theorem complete (hs : s.Ranked) (h : s.Invariant) {node : g.Node} {above below : List g.Node}
    (hstack : s.stack = above ++ node :: below) (frames : List (Frame g)) :
    (Search.complete node { s with frames }).Ranked := by
  have hd := h.descending
  rw [hstack] at hd
  unfold Search.complete
  simp only [hstack, hd.takeWhile_ne, hd.tail_dropWhile_ne]
  intro c hc
  rcases List.mem_append.mp hc with hc | hc
  · exact hs c hc
  · obtain rfl := List.mem_singleton.mp hc
    have hpiece : (above ++ [node]).Pairwise fun v w => s.found.idxOf w < s.found.idxOf v :=
      List.Pairwise.sublist (by simp) hd
    exact List.pairwise_reverse.mpr hpiece

theorem step (h : s.Invariant) (hs : s.Ranked) : s.step.Ranked := by
  obtain ⟨frames, heq⟩ | ⟨-, -, next, frames, -, -, -, heq⟩ |
    ⟨above, node, below, frames, hstack, heq⟩ := h.step_cases
  · rw [heq]
    exact hs
  · rw [heq]
    exact hs.enter h next frames
  · rw [heq]
    exact hs.complete h hstack frames

end Ranked

end Search

/-- The nodes in the order in which the search finds them. -/
def discovered (g : DirectedGraph) : List g.Node :=
  (g.nodes.foldl Search.visit Search.start).found

theorem nodup_discovered (g : DirectedGraph) : (discovered g).Nodup :=
  (Search.rest_visit_all Search.Rest.start g.nodes).1.invariant.nodup

theorem mem_discovered (v : g.Node) : v ∈ discovered g :=
  (Search.rest_visit_all Search.Rest.start g.nodes).2 v (Or.inr (mem_nodes v))

/-- The members of a component stand in the order in which they were found. -/
theorem pairwise_discovered {c : List g.Node} (hc : c ∈ componentNodes g) :
    c.Pairwise fun v w => (discovered g).idxOf v < (discovered g).idxOf w := by
  have hranked : (g.nodes.foldl Search.visit Search.start).Ranked :=
    Search.Rest.start.visit_all_induction
      (fun s hrest root _ hs => hs.enter hrest.invariant root s.frames)
      (fun s h hs => hs.step h) (fun _ hc => absurd hc List.not_mem_nil) g.nodes
  exact hranked c hc

/-- **The order of the components**: if an edge leads from one component to another one, that one is
listed earlier. The first member of a component is the one that the search finds first, and leads to
every other member through members. -/
theorem components_in_order (g : DirectedGraph) :
    components g = (componentNodes g).map (·.map g.label) ∧
    (∀ (i j : Nat) (c d : List g.Node), (componentNodes g)[i]? = some c →
      (componentNodes g)[j]? = some d → i ≠ j → ∀ v ∈ c, ∀ w ∈ d, g.Adjacent v w → j < i) ∧
    (discovered g).Nodup ∧ (∀ v, v ∈ discovered g) ∧
    ∀ c ∈ componentNodes g, ∃ first rest, c = first :: rest ∧
      (∀ v ∈ rest, (discovered g).idxOf first < (discovered g).idxOf v) ∧
      ∀ v ∈ c, g.ReachesWithin c first v := by
  have hsettled := settled_componentNodes g
  have hnodup := nodup_flatten_componentNodes g
  refine ⟨rfl, ?_, nodup_discovered g, mem_discovered, fun c hc => ?_⟩
  · intro i j c d hi hj hne v hv w hw hvw
    obtain ⟨hi', rfl⟩ := List.getElem?_eq_some_iff.mp hi
    obtain ⟨hj', rfl⟩ := List.getElem?_eq_some_iff.mp hj
    by_contra hle
    have hlt : i < j := Nat.lt_of_le_of_ne (Nat.not_lt.mp hle) hne
    exact List.pairwise_iff_getElem.mp (hsettled.pairwise hnodup) i j hi' hj' hlt v hv w hw hvw
  · obtain ⟨first, rest, rfl⟩ := List.exists_cons_of_ne_nil (hsettled.nonempty c hc)
    refine ⟨first, rest, rfl, (List.pairwise_cons.mp (pairwise_discovered hc)).1, fun v hv => ?_⟩
    exact hsettled.reachesWithin hnodup mem_flatten_componentNodes hc List.mem_cons_self hv

/-- Two circles of two nodes each, with an edge from the first circle to the second one. -/
def twoCircles : DirectedGraph :=
  .ofNumbers ["a", "b", "c", "d"] [(0, 1), (1, 0), (1, 2), (2, 3), (3, 2)]

theorem componentNodes_twoCircles : componentNodes twoCircles =
    [[⟨2, by decide⟩, ⟨3, by decide⟩], [⟨0, by decide⟩, ⟨1, by decide⟩]] := by
  have hnodes : twoCircles.nodes =
      [⟨0, by decide⟩, ⟨1, by decide⟩, ⟨2, by decide⟩, ⟨3, by decide⟩] := by decide
  rw [componentNodes_of_first 9 hnodes (by decide) (by decide)]
  decide

theorem components_in_order_twoCircles :
    (componentNodes twoCircles)[1]? = some [⟨0, by decide⟩, ⟨1, by decide⟩] ∧
      (componentNodes twoCircles)[0]? = some [⟨2, by decide⟩, ⟨3, by decide⟩] ∧
      twoCircles.Adjacent ⟨1, by decide⟩ ⟨2, by decide⟩ ∧ 0 < 1 ∧
      ∃ first rest, first :: rest = [⟨0, by decide⟩, ⟨1, by decide⟩] ∧
        twoCircles.ReachesWithin (first :: rest) first ⟨1, by decide⟩ := by
  have hfirst : (componentNodes twoCircles)[0]? = some [⟨2, by decide⟩, ⟨3, by decide⟩] := by
    rw [componentNodes_twoCircles]
    rfl
  have hsecond : (componentNodes twoCircles)[1]? = some [⟨0, by decide⟩, ⟨1, by decide⟩] := by
    rw [componentNodes_twoCircles]
    rfl
  have hedge : twoCircles.Adjacent ⟨1, by decide⟩ ⟨2, by decide⟩ := by
    unfold Adjacent
    decide
  obtain ⟨-, hearlier, -, -, hentered⟩ := components_in_order twoCircles
  obtain ⟨first, rest, hc, -, hwalk⟩ := hentered _ (List.mem_of_getElem? hsecond)
  refine ⟨hsecond, hfirst, hedge, ?_, first, rest, hc.symm, ?_⟩
  · exact hearlier 1 0 _ _ hsecond hfirst (by decide) _ (by decide) _ (by decide) hedge
  · exact hc ▸ hwalk _ (by decide)

end Cycle

end ArchFacts
