import ArchFacts.Proofs.Cycle.Reachability
import Mathlib.Data.List.Basic
import Mathlib.Logic.Function.Basic

/-!
# The recursive search for components

As it is usually told, the search for components explores a node by a call: the call numbers the
node, makes a call for every edge to a node that has no number yet, and leaves the node again. It
notes a number, a low link and a flag for every node in a ledger, where the search of
`componentNodes` keeps frames in place of the calls. A call ends because it numbers a node. It only
writes to nodes that had no number before (`keepsBut_connect`).
-/

namespace ArchFacts.Cycle

open DirectedGraph

variable {g : DirectedGraph}

/-- What the recursive search writes down. -/
structure Ledger (g : DirectedGraph) where
  /-- The number of a node, once it is found. -/
  index : g.Node → Option Nat
  /-- The least number of a node on the stack that a node is known to reach. -/
  lowlink : g.Node → Nat
  onStack : g.Node → Bool
  stack : List g.Node
  /-- The next number. -/
  counter : Nat
  components : List (List g.Node)

namespace Ledger

/-- Before the first root. -/
def blank : Ledger g := ⟨fun _ => none, fun _ => 0, fun _ => false, [], 0, []⟩

/-- Numbers a node and puts it on the stack. -/
def enter (v : g.Node) (t : Ledger g) : Ledger g :=
  { t with
    index := Function.update t.index v (some t.counter)
    lowlink := Function.update t.lowlink v t.counter
    onStack := Function.update t.onStack v true
    stack := v :: t.stack
    counter := t.counter + 1 }

/-- Lowers the low link of a node. -/
def lower (v : g.Node) (number : Nat) (t : Ledger g) : Ledger g :=
  { t with lowlink := Function.update t.lowlink v (min (t.lowlink v) number) }

/-- The nodes on a stack down to `v`, as they are taken off, and those left. -/
def popTo (v : g.Node) : List g.Node → List g.Node × List g.Node
  | [] => ([], [])
  | w :: rest => if w = v then ([w], rest) else (w :: (popTo v rest).1, (popTo v rest).2)

/-- Takes the component that begins with `v` off the stack. -/
def complete (v : g.Node) (t : Ledger g) : Ledger g :=
  { t with
    onStack := fun w => t.onStack w && !(popTo v t.stack).1.contains w
    stack := (popTo v t.stack).2
    components := t.components ++ [(popTo v t.stack).1.reverse] }

/-- Leaves a node, the first of its component if its low link is its own number. -/
def leave (v : g.Node) (t : Ledger g) : Ledger g :=
  if t.index v = some (t.lowlink v) then t.complete v else t

/-- How many nodes have no number yet. -/
def unnumbered (t : Ledger g) : Nat := (g.nodes.filter fun v => t.index v = none).length

theorem unnumbered_enter {t : Ledger g} {v : g.Node} (h : t.index v = none) :
    (t.enter v).unnumbered < t.unnumbered := by
  have hrest : g.nodes.filter (fun w => (t.enter v).index w = none) =
      (g.nodes.filter fun w => t.index w = none).filter (· ≠ v) := by
    rw [List.filter_filter]
    refine List.filter_congr fun w _ => ?_
    by_cases hw : w = v
    · simp [enter, hw]
    · simp [enter, hw]
  rw [unnumbered, unnumbered, hrest, List.length_filter_lt_length_iff_exists]
  exact ⟨v, by simp [mem_nodes, h], by simp⟩

theorem unnumbered_leave (t : Ledger g) (v : g.Node) : (t.leave v).unnumbered = t.unnumbered := by
  unfold leave
  split <;> rfl

/-- Explores a node that has no number yet: numbers it, goes through its edges, exploring what has
no number, and leaves it. -/
def connect (v : g.Node) (t : Ledger g) (h : t.index v = none) :
    { u : Ledger g // u.unnumbered < t.unnumbered } :=
  let explored := (g.successors v).foldl
    (fun (u : { u : Ledger g // u.unnumbered < t.unnumbered }) w =>
      match hw : u.1.index w with
      | none =>
        let child := connect w u.1 hw
        ⟨child.1.lower v (child.1.lowlink w), Nat.lt_trans child.2 u.2⟩
      | some number => if u.1.onStack w then ⟨u.1.lower v number, u.2⟩ else u)
    ⟨t.enter v, unnumbered_enter h⟩
  ⟨explored.1.leave v, (unnumbered_leave explored.1 v).symm ▸ explored.2⟩
termination_by t.unnumbered
decreasing_by exact u.2

/-- Follows an edge of `v` to `w`. -/
def follow (v : g.Node) (t : Ledger g) (w : g.Node) : Ledger g :=
  match hw : t.index w with
  | none => (connect w t hw).1.lower v ((connect w t hw).1.lowlink w)
  | some number => if t.onStack w then t.lower v number else t

/-- Exploring a node, edge by edge. -/
theorem connect_eq (v : g.Node) (t : Ledger g) (h : t.index v = none) :
    (connect v t h).1 = ((g.successors v).foldl (follow v) (t.enter v)).leave v := by
  rw [connect]
  refine congrArg (leave v) (List.foldl_hom Subtype.val fun u w => ?_).symm
  unfold follow
  split
  · rfl
  · split <;> rfl

theorem follow_none {v w : g.Node} {t : Ledger g} (hw : t.index w = none) :
    follow v t w = (connect w t hw).1.lower v ((connect w t hw).1.lowlink w) := by
  unfold follow
  split
  · rfl
  · next h => exact absurd (hw.symm.trans h) nofun

theorem follow_some {v w : g.Node} {t : Ledger g} {number : Nat} (hw : t.index w = some number) :
    follow v t w = if t.onStack w then t.lower v number else t := by
  unfold follow
  split
  · next h => exact absurd (h.symm.trans hw) nofun
  · next h =>
    obtain rfl := Option.some.inj (h.symm.trans hw)
    rfl

/-- Explores a root, unless it was found before. -/
def visit (t : Ledger g) (root : g.Node) : Ledger g :=
  if h : t.index root = none then (connect root t h).1 else t

end Ledger

/-- The ledger of the whole recursive search. -/
def ledger (g : DirectedGraph) : Ledger g := g.nodes.foldl Ledger.visit .blank

/-- The strongly connected components as the recursive search finds them. -/
def recursiveComponents (g : DirectedGraph) : List (List String) :=
  (ledger g).components.map (·.map g.label)

/-! ### What exploring leaves alone -/

namespace Ledger

/-- The notes on the nodes that were found stay as they are, but for the low link of `v`. -/
def KeepsBut (v : g.Node) (t u : Ledger g) : Prop :=
  ∀ w, t.index w ≠ none → u.index w = t.index w ∧ (w ≠ v → u.lowlink w = t.lowlink w)

theorem KeepsBut.refl (v : g.Node) (t : Ledger g) : KeepsBut v t t :=
  fun _ _ => ⟨rfl, fun _ => rfl⟩

theorem KeepsBut.trans {v : g.Node} {t u r : Ledger g} (h₁ : KeepsBut v t u)
    (h₂ : KeepsBut v u r) : KeepsBut v t r := by
  intro w hw
  obtain ⟨hindex, hlow⟩ := h₁ w hw
  obtain ⟨hindex', hlow'⟩ := h₂ w (hindex ▸ hw)
  exact ⟨hindex'.trans hindex, fun hne => (hlow' hne).trans (hlow hne)⟩

theorem keepsBut_lower (v : g.Node) (number : Nat) (t : Ledger g) :
    KeepsBut v t (t.lower v number) :=
  fun _ _ => ⟨rfl, fun hne => Function.update_of_ne hne ..⟩

theorem keepsBut_enter (v : g.Node) (t : Ledger g) (h : t.index v = none) :
    KeepsBut v t (t.enter v) := by
  intro w hw
  have hne : w ≠ v := fun hwv => hw (hwv ▸ h)
  exact ⟨Function.update_of_ne hne .., fun _ => Function.update_of_ne hne ..⟩

theorem keepsBut_leave (v : g.Node) (t : Ledger g) : KeepsBut v t (t.leave v) := by
  unfold leave
  split
  · exact fun _ _ => ⟨rfl, fun _ => rfl⟩
  · exact .refl v t

/-- A node that was not found is none of those that are kept. -/
theorem KeepsBut.of_none {v w : g.Node} {t u : Ledger g} (h : KeepsBut w t u)
    (hw : t.index w = none) : KeepsBut v t u := by
  intro x hx
  obtain ⟨hindex, hlow⟩ := h x hx
  exact ⟨hindex, fun _ => hlow fun hxw => hx (hxw ▸ hw)⟩

theorem unnumbered_follow_le (v w : g.Node) (t : Ledger g) :
    (follow v t w).unnumbered ≤ t.unnumbered := by
  cases hw : t.index w with
  | none =>
    rw [follow_none hw]
    exact Nat.le_of_lt (connect w t hw).2
  | some number =>
    rw [follow_some hw]
    split <;> exact Nat.le_refl _

theorem keepsBut_follow {v w : g.Node} {t : Ledger g}
    (hcall : ∀ hw : t.index w = none, KeepsBut w t (connect w t hw).1) :
    KeepsBut v t (follow v t w) := by
  cases hw : t.index w with
  | none =>
    rw [follow_none hw]
    exact ((hcall hw).of_none hw).trans (keepsBut_lower v _ _)
  | some number =>
    rw [follow_some hw]
    split
    · exact keepsBut_lower v number t
    · exact .refl v t

theorem keepsBut_foldl_follow {v : g.Node} {t : Ledger g}
    (hcalls : ∀ u : Ledger g, u.unnumbered ≤ t.unnumbered → ∀ w, ∀ hw : u.index w = none,
      KeepsBut w u (connect w u hw).1) (edges : List g.Node) :
    KeepsBut v t (edges.foldl (follow v) t) := by
  induction edges generalizing t with
  | nil => exact .refl v t
  | cons w rest ih =>
    refine (keepsBut_follow (hcalls t (Nat.le_refl _) w)).trans (ih fun u hu => ?_)
    exact hcalls u (Nat.le_trans hu (unnumbered_follow_le v w t))

/-- Exploring a node changes nothing that was noted on those found before. -/
theorem keepsBut_connect {v : g.Node} {t : Ledger g} (h : t.index v = none) :
    KeepsBut v t (connect v t h).1 := by
  obtain ⟨n, hn⟩ : ∃ n, t.unnumbered < n := ⟨_, Nat.lt_succ_self _⟩
  induction n generalizing t v with
  | zero => exact absurd hn (Nat.not_lt_zero _)
  | succ n ih =>
    rw [connect_eq]
    refine ((keepsBut_enter v t h).trans (keepsBut_foldl_follow (fun u hu w hw => ?_) _)).trans
      (keepsBut_leave v _)
    have hless : u.unnumbered < t.unnumbered := Nat.lt_of_le_of_lt hu (unnumbered_enter h)
    exact ih hw (Nat.lt_of_lt_of_le hless (Nat.le_of_lt_succ hn))

end Ledger

end ArchFacts.Cycle
