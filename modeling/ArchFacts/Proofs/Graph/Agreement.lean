import ArchFacts.Proofs.Graph.Adjacency
import ArchFacts.Proofs.Graph.ShortestPath
import ArchFacts.Proofs.Graph.Traversal

/-!
# The searches agree

How far `b` is from `a` can be asked in three ways: by a traversal forward from `a`, by one in
reverse from `b`, and by a search for a path. Each answers with the distance, so under the same
depth ceiling they give the same answer (`searches_agree`). A depth of 0 is left out, since it means
a different default to a traversal than to a search for a path.
-/

namespace ArchFacts

/-- A traversal reports a name at a depth. -/
def Traversal.Reports (t : Traversal) (name : String) (depth : Nat) : Prop :=
  ∃ n ∈ t.nodes, n.name = name ∧ n.depth = depth

/-- What is asked of a traversal that follows some kinds of relations and hides no node. -/
def TraversalOptions.along (direction : Direction) (relationKinds : List RelationKind)
    (maxDepth maxNodes : Nat) : TraversalOptions :=
  { direction, relationKinds, maxDepth, maxNodes }

section Ceiling

variable {asked default greatest : Nat}

theorem ceiling_of_pos (h : 1 ≤ asked) : ceiling asked default greatest = min asked greatest :=
  if_neg (Nat.one_le_iff_ne_zero.mp h)

/-- A ceiling that is granted as it is. -/
theorem ceiling_eq_self (hpos : 1 ≤ asked) (h : asked ≤ greatest) :
    ceiling asked default greatest = asked :=
  (ceiling_of_pos hpos).trans (Nat.min_eq_left h)

theorem ceiling_le (h : default ≤ greatest) : ceiling asked default greatest ≤ greatest := by
  unfold ceiling
  split
  · exact h
  · exact Nat.min_le_right _ _

theorem ceiling_pos (hdefault : 1 ≤ default) (hgreatest : 1 ≤ greatest) :
    1 ≤ ceiling asked default greatest := by
  unfold ceiling
  split <;> omega

end Ceiling

theorem TraversalOptions.reports_of_all {o : TraversalOptions} (h : o.nodeKinds = [])
    (info : NodeInfo) : o.reports info = true := by
  rw [reports, h]
  rfl

namespace Graph

/-- A traversal that drops no node and hides none reports the names within its depth ceiling, each
at its distance. -/
theorem reports_iff {g : Graph} {start name : String} {o : TraversalOptions} {d : Nat}
    (hkinds : o.nodeKinds = []) (h : (g.traverse start o).truncated = false) :
    (g.traverse start o).Reports name d ↔
      d ≤ o.depthCeiling ∧ g.Distance o.direction o.relationKinds start name d := by
  have hw := (Walk.Reached.atStart g o start).levels o.depthCeiling h
  rw [Nat.zero_add] at hw
  constructor
  · rintro ⟨n, hn, rfl, rfl⟩
    obtain ⟨hle, hdist, -⟩ := (hw.mem_nodes n).mp hn
    exact ⟨hle, hdist⟩
  · rintro ⟨hle, hdist⟩
    refine ⟨⟨name, g.info name, d⟩, ?_, rfl, rfl⟩
    exact (hw.mem_nodes _).mpr ⟨hle, hdist, rfl, Or.inr (o.reports_of_all hkinds _)⟩

/-- **The three searches agree**: unless nodes are dropped, a traversal from `a` reports `b` at the
depth at which one in reverse from `b` reports `a`, and that is the length of the path that is found
from `a` to `b`. -/
theorem searches_agree (facts : List Fact) (a b : String) (kinds : List RelationKind)
    (depth nodes nodes' : Nat) (hdepth : 1 ≤ depth)
    (hforward : ((build facts).traverse a (.along .forward kinds depth nodes)).truncated = false)
    (hreverse : ((build facts).traverse b (.along .reverse kinds depth nodes')).truncated = false)
    (d : Nat) :
    (((build facts).traverse a (.along .forward kinds depth nodes)).Reports b d ↔
      ((build facts).traverse b (.along .reverse kinds depth nodes')).Reports a d) ∧
    (((build facts).traverse b (.along .reverse kinds depth nodes')).Reports a d ↔
      ((build facts).findPath a b kinds depth).found = true ∧
        ((build facts).findPath a b kinds depth).edges.length = d) := by
  have hceiling : ceiling depth TraversalOptions.defaultDepth TraversalOptions.greatestDepth =
      ceiling depth defaultPathDepth greatestPathDepth :=
    (ceiling_of_pos hdepth).trans (ceiling_of_pos hdepth).symm
  rw [reports_iff rfl hforward, reports_iff rfl hreverse, findPath_found_iff, ← hceiling]
  exact ⟨and_congr_right fun _ => distance_reverse_iff.symm,
    and_congr_right fun _ => distance_reverse_iff⟩

/-- A way of two imports beside a call that is shorter, with an import of itself at the end. -/
def shortcut : List Fact :=
  [((Fact.of .codeModule "a").withRelation .calls "c").withRelation .imports "b",
    (Fact.of .codeModule "b").withRelation .imports "c",
    (Fact.of .codeModule "c").withRelation .imports "c"]

/-- The call does not count where imports alone are followed. -/
theorem searches_agree_shortcut :
    ((build shortcut).traverse "a" (.along .forward [.imports] 3 3)).truncated = false ∧
      ((build shortcut).traverse "c" (.along .reverse [.imports] 3 0)).truncated = false ∧
      ((build shortcut).traverse "c" (.along .reverse [.imports] 3 0)).Reports "a" 2 ∧
      ((build shortcut).findPath "a" "c" [.imports] 3).found = true ∧
      ((build shortcut).findPath "a" "c" [.imports] 3).edges.length = 2 := by
  have hreported : ((build shortcut).traverse "a" (.along .forward [.imports] 3 3)).Reports "c" 2 :=
    ⟨⟨"c", (build shortcut).info "c", 2⟩, by decide, rfl, rfl⟩
  have hagree :=
    searches_agree shortcut "a" "c" [.imports] 3 3 0 (by decide) (by decide) (by decide) 2
  exact ⟨by decide, by decide, hagree.1.mp hreported, hagree.2.mp (hagree.1.mp hreported)⟩

end Graph

end ArchFacts
