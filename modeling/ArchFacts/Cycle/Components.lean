import ArchFacts.DirectedGraph

/-!
# Strongly connected components

Two nodes belong to the same component if each can be reached from the other. The components are
found in one depth-first search. It keeps the nodes whose component is not complete on a stack, and
for every node that is being explored the earliest node on the stack that it is known to reach, its
*low* point. A node whose low point is itself, once all its edges have been followed, is the first
of its component, and the rest of the component stands above it on the stack.

Roots are tried in the order of the nodes and edges followed in their order. A component is listed
when it is complete, its members in the order in which they were found.
-/

namespace ArchFacts.Cycle

open DirectedGraph

variable {g : DirectedGraph}

/-- A node that is being explored: its low point and the targets of the edges that are still to be
followed. -/
structure Frame (g : DirectedGraph) where
  node : g.Node
  low : Nat
  pending : List g.Node
  deriving DecidableEq

/-- A point of the search. -/
structure Search (g : DirectedGraph) where
  /-- The nodes found so far, in order. The place of a node in it is its number. -/
  found : List g.Node
  /-- The nodes whose component is not complete, the last found first. -/
  stack : List g.Node
  /-- The nodes being explored, the innermost first. -/
  frames : List (Frame g)
  /-- The complete components. -/
  components : List (List g.Node)
  deriving DecidableEq

namespace Search

/-- Before the first root. -/
def start : Search g := ⟨[], [], [], []⟩

/-- The number of a node that was found. -/
def number (s : Search g) (v : g.Node) : Nat := s.found.idxOf v

/-- Begins to explore a node. -/
def enter (v : g.Node) (s : Search g) : Search g :=
  { s with
    found := s.found ++ [v]
    stack := v :: s.stack
    frames := ⟨v, s.found.length, g.successors v⟩ :: s.frames }

/-- Takes the component that begins with `v` off the stack. -/
def complete (v : g.Node) (s : Search g) : Search g :=
  { s with
    stack := (s.stack.dropWhile (· ≠ v)).tail
    components := s.components ++ [(s.stack.takeWhile (· ≠ v) ++ [v]).reverse] }

/-- Lowers the low point of the innermost frame. -/
def lower (low : Nat) : List (Frame g) → List (Frame g)
  | [] => []
  | frame :: outer => { frame with low := min frame.low low } :: outer

/-- Follows the next edge of the node being explored, or leaves it. -/
def step (s : Search g) : Search g :=
  match s.frames with
  | [] => s
  | ⟨node, low, next :: rest⟩ :: outer =>
    let left := { s with frames := ⟨node, low, rest⟩ :: outer }
    if next ∉ s.found then left.enter next
    else if next ∈ s.stack then { left with frames := lower (s.number next) left.frames }
    else left
  | ⟨node, low, []⟩ :: outer =>
    let left := { s with frames := lower low outer }
    if low = s.number node then left.complete node else left

theorem step_rest {s : Search g} (h : s.frames = []) : s.step = s := by
  obtain ⟨found, stack, frames, components⟩ := s
  obtain rfl : frames = [] := h
  rfl

/-- Leaving a node. -/
theorem step_leave {s : Search g} {v : g.Node} {low : Nat} {outer : List (Frame g)}
    (h : s.frames = ⟨v, low, []⟩ :: outer) :
    s.step = if low = s.number v then complete v { s with frames := lower low outer }
      else { s with frames := lower low outer } := by
  obtain ⟨found, stack, frames, components⟩ := s
  obtain rfl : frames = _ := h
  rfl

section

variable {s : Search g} {v next : g.Node} {low : Nat} {rest : List g.Node} {outer : List (Frame g)}

/-- Following an edge to a new node. -/
theorem step_enter (h : s.frames = ⟨v, low, next :: rest⟩ :: outer) (hnew : next ∉ s.found) :
    s.step = enter next { s with frames := ⟨v, low, rest⟩ :: outer } := by
  obtain ⟨found, stack, frames, components⟩ := s
  obtain rfl : frames = _ := h
  exact if_pos hnew

/-- Following an edge to a node whose component is not complete. -/
theorem step_merge (h : s.frames = ⟨v, low, next :: rest⟩ :: outer) (hfound : next ∈ s.found)
    (hstacked : next ∈ s.stack) :
    s.step = { s with frames := ⟨v, min low (s.number next), rest⟩ :: outer } := by
  obtain ⟨found, stack, frames, components⟩ := s
  obtain rfl : frames = _ := h
  exact (if_neg (not_not_intro hfound)).trans (if_pos hstacked)

/-- Following an edge into a complete component. -/
theorem step_pass (h : s.frames = ⟨v, low, next :: rest⟩ :: outer) (hfound : next ∈ s.found)
    (hcomplete : next ∉ s.stack) : s.step = { s with frames := ⟨v, low, rest⟩ :: outer } := by
  obtain ⟨found, stack, frames, components⟩ := s
  obtain rfl : frames = _ := h
  exact (if_neg (not_not_intro hfound)).trans (if_neg hcomplete)

end

/-- How many nodes have not been found. -/
def unfound (s : Search g) : Nat := (g.nodes.filter (· ∉ s.found)).length

/-- How many edges are to be followed and nodes to be left in some frames. -/
def work : List (Frame g) → Nat
  | [] => 0
  | frame :: outer => frame.pending.length + 1 + work outer

theorem unfound_enter {s : Search g} {v : g.Node} (h : v ∉ s.found) :
    (s.enter v).unfound < s.unfound := by
  have split : g.nodes.filter (· ∉ (s.enter v).found) =
      (g.nodes.filter (· ∉ s.found)).filter (· ≠ v) := by
    rw [List.filter_filter]
    refine List.filter_congr fun w _ => ?_
    simp [enter, and_comm]
  rw [unfound, unfound, split, List.length_filter_lt_length_iff_exists]
  exact ⟨v, by simp [nodes, h], by simp⟩

theorem work_lower (low : Nat) (frames : List (Frame g)) :
    work (lower low frames) = work frames := by
  cases frames <;> rfl

/-- Every step finds a node, or follows an edge or leaves a node. -/
theorem step_decreases {s : Search g} (h : s.frames ≠ []) :
    s.step.unfound < s.unfound ∨
      s.step.unfound = s.unfound ∧ work s.step.frames < work s.frames := by
  obtain ⟨found, stack, frames, components⟩ := s
  match frames, h with
  | ⟨node, low, next :: rest⟩ :: outer, _ =>
    by_cases hf : next ∈ found
    · right
      by_cases hs : next ∈ stack
      · simp [step, hf, hs, unfound, work, lower]
      · simp [step, hf, hs, unfound, work]
    · left
      have found_next :=
        unfound_enter (s := ⟨found, stack, ⟨node, low, rest⟩ :: outer, components⟩) hf
      simpa [step, hf, unfound] using found_next
  | ⟨node, low, []⟩ :: outer, _ =>
    right
    by_cases hl : low = number ⟨found, stack, ⟨node, low, []⟩ :: outer, components⟩ node
    · simp [step, ← hl, unfound, work, complete, work_lower]
    · simp [step, hl, unfound, work, work_lower]

/-- Explores until no node is being explored. -/
def explore (s : Search g) : Search g :=
  if _h : s.frames = [] then s else s.step.explore
termination_by (s.unfound, work s.frames)
decreasing_by
  rcases step_decreases _h with h | ⟨h, h'⟩
  · exact Prod.Lex.left _ _ h
  · rw [h]
    exact Prod.Lex.right _ h'

/-- Explores from a root, unless it was found before. -/
def visit (s : Search g) (root : g.Node) : Search g :=
  if root ∈ s.found then s else (s.enter root).explore

end Search

/-- The strongly connected components of a graph, as lists of nodes. -/
def componentNodes (g : DirectedGraph) : List (List g.Node) :=
  (g.nodes.foldl Search.visit Search.start).components

/-- The strongly connected components of a graph, as lists of labels. -/
def components (g : DirectedGraph) : List (List String) :=
  (componentNodes g).map (·.map g.label)

end ArchFacts.Cycle
