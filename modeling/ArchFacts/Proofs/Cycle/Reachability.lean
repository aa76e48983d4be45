import ArchFacts.DirectedGraph
import Mathlib.Data.List.Basic
import Mathlib.Logic.Relation

/-!
# Reachability and strongly connected components

A node *reaches* another one if a walk along edges leads there, and two nodes are *connected* if
each reaches the other. A list of components is *settled* if no edge leaves the components listed up
to any of them and each of them is connected. In such a list two nodes share a component exactly if
they are connected (`Settled.same_component_iff`): a walk that leaves a component can only go on to
those listed before it, from which there is no way back.
-/

namespace ArchFacts.DirectedGraph

variable {g : DirectedGraph}

/-- There is an edge from `v` to `w`. -/
def Adjacent (g : DirectedGraph) (v w : g.Node) : Prop := (v, w) ∈ g.edges

/-- A walk along edges leads from a node to another one; the empty one to the node itself. -/
def Reaches (g : DirectedGraph) : g.Node → g.Node → Prop := Relation.ReflTransGen g.Adjacent

/-- Each of two nodes reaches the other. -/
def Connected (g : DirectedGraph) (v w : g.Node) : Prop := g.Reaches v w ∧ g.Reaches w v

/-- No edge leads out of some nodes. -/
def Closed (g : DirectedGraph) (nodes : List g.Node) : Prop :=
  ∀ v ∈ nodes, ∀ w, g.Adjacent v w → w ∈ nodes

theorem mem_successors {v w : g.Node} : w ∈ g.successors v ↔ g.Adjacent v w := by
  unfold successors Adjacent
  rw [List.mem_map]
  constructor
  · rintro ⟨⟨a, b⟩, hmem, rfl⟩
    obtain ⟨he, ha⟩ := List.mem_filter.mp hmem
    obtain rfl : a = v := of_decide_eq_true ha
    exact he
  · intro he
    exact ⟨(v, w), List.mem_filter.mpr ⟨he, decide_eq_true rfl⟩, rfl⟩

theorem mem_nodes (v : g.Node) : v ∈ g.nodes := List.mem_finRange v

theorem Reaches.refl (v : g.Node) : g.Reaches v v := Relation.ReflTransGen.refl

theorem Adjacent.reaches {v w : g.Node} (h : g.Adjacent v w) : g.Reaches v w :=
  Relation.ReflTransGen.single h

theorem Reaches.trans {u v w : g.Node} (h₁ : g.Reaches u v) (h₂ : g.Reaches v w) :
    g.Reaches u w :=
  Relation.ReflTransGen.trans h₁ h₂

theorem Connected.refl (v : g.Node) : g.Connected v v := ⟨.refl v, .refl v⟩

theorem Connected.symm {v w : g.Node} (h : g.Connected v w) : g.Connected w v := ⟨h.2, h.1⟩

theorem Connected.trans {u v w : g.Node} (h₁ : g.Connected u v) (h₂ : g.Connected v w) :
    g.Connected u w :=
  ⟨h₁.1.trans h₂.1, h₂.2.trans h₁.2⟩

/-- A walk that begins in closed nodes stays there. -/
theorem Closed.of_reaches {nodes : List g.Node} (h : g.Closed nodes) {v w : g.Node}
    (hv : v ∈ nodes) (hw : g.Reaches v w) : w ∈ nodes := by
  induction hw with
  | refl => exact hv
  | tail _ edge ih => exact h _ ih _ edge

/-- Components in an order in which no edge leads to a later one. -/
structure Settled (g : DirectedGraph) (components : List (List g.Node)) : Prop where
  closed : ∀ earlier, earlier <+: components → g.Closed earlier.flatten
  connected : ∀ c ∈ components, ∀ v ∈ c, ∀ w ∈ c, g.Connected v w
  nonempty : ∀ c ∈ components, c ≠ []

namespace Settled

variable {components : List (List g.Node)}

theorem nil : g.Settled [] := by
  refine ⟨fun earlier he => ?_, fun _ hc => absurd hc List.not_mem_nil,
    fun _ hc => absurd hc List.not_mem_nil⟩
  obtain rfl := List.prefix_nil.mp he
  exact fun v hv => absurd hv List.not_mem_nil

theorem concat (h : g.Settled components) {c : List g.Node}
    (hclosed : g.Closed (components ++ [c]).flatten)
    (hconnected : ∀ v ∈ c, ∀ w ∈ c, g.Connected v w) (hc : c ≠ []) :
    g.Settled (components ++ [c]) := by
  refine ⟨fun earlier he => ?_, fun d hd => ?_, fun d hd => ?_⟩
  · rcases List.prefix_concat_iff.mp he with rfl | he
    · exact hclosed
    · exact h.closed earlier he
  · rcases List.mem_append.mp hd with hd | hd
    · exact h.connected d hd
    · obtain rfl := List.mem_singleton.mp hd
      exact hconnected
  · rcases List.mem_append.mp hd with hd | hd
    · exact h.nonempty d hd
    · obtain rfl := List.mem_singleton.mp hd
      exact hc

/-- Two nodes are connected exactly if they share a component. -/
theorem same_component_iff (h : g.Settled components) (hnodup : components.flatten.Nodup)
    (hall : ∀ v, v ∈ components.flatten) (v w : g.Node) :
    (∃ c ∈ components, v ∈ c ∧ w ∈ c) ↔ g.Connected v w := by
  constructor
  · rintro ⟨c, hc, hv, hw⟩
    exact h.connected c hc v hv w hw
  · rintro ⟨hvw, hwv⟩
    obtain ⟨c, hc, hv⟩ := List.mem_flatten.mp (hall v)
    obtain ⟨earlier, later, rfl⟩ := List.append_of_mem hc
    have hupto : g.Closed (earlier ++ [c]).flatten := h.closed _ ⟨later, by simp⟩
    have hw : w ∈ (earlier ++ [c]).flatten := hupto.of_reaches (by simp [hv]) hvw
    refine ⟨c, hc, hv, ?_⟩
    rw [List.flatten_append, List.mem_append] at hw
    rcases hw with hw | hw
    · -- from before `c` there is no way back to `v`
      have hback : v ∈ earlier.flatten := (h.closed _ ⟨c :: later, rfl⟩).of_reaches hw hwv
      rw [List.flatten_append, List.nodup_append] at hnodup
      exact absurd rfl (hnodup.2.2 v hback v (by simp [hv]))
    · simpa using hw

end Settled

end ArchFacts.DirectedGraph
