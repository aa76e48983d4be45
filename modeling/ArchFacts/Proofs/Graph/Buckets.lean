import ArchFacts.Graph.Impact
import Mathlib.Data.List.Induction

/-!
# Buckets and counts

Buckets are an ordered map of nodes by their depth, and stay one when a node is put in (`Ordered`).
They forget in which order nodes of different depths came, unless the nodes came by ascending depth:
then they stand in the buckets as they came (`foldl_place`). The counts of a summary are by label,
in the order in which the labels appear first (`Counts`).
-/

namespace ArchFacts

/-- The sum of some numbers. -/
def addUp (numbers : List Nat) : Nat := numbers.foldr (· + ·) 0

theorem length_flatMap_eq_addUp {α β : Type} (f : α → List β) (as : List α) :
    (as.flatMap f).length = addUp (as.map fun a => (f a).length) := by
  induction as with
  | nil => rfl
  | cons a rest ih =>
    rw [List.flatMap_cons, List.length_append, ih]
    rfl

namespace Impact

/-! ### Buckets -/

variable {nodes : List TraversalNode} {bs : List Bucket} {b : Bucket} {n : TraversalNode}

/-- An ordered map of nodes by their depth: its keys ascend, and each has nodes, all of that
depth. -/
structure Ordered (bs : List Bucket) : Prop where
  ascending : bs.Pairwise (·.depth < ·.depth)
  occupied : ∀ b ∈ bs, b.nodes ≠ []
  uniform : ∀ b ∈ bs, ∀ n ∈ b.nodes, n.depth = b.depth

theorem Ordered.nil : Ordered [] where
  ascending := .nil
  occupied _ hb := absurd hb List.not_mem_nil
  uniform _ hb := absurd hb List.not_mem_nil

theorem Ordered.cons_iff {rest : List Bucket} :
    Ordered (b :: rest) ↔
      (∀ c ∈ rest, b.depth < c.depth) ∧ b.nodes ≠ [] ∧ (∀ n ∈ b.nodes, n.depth = b.depth) ∧
        Ordered rest := by
  constructor
  · rintro ⟨hascending, hoccupied, huniform⟩
    obtain ⟨hbelow, hrest⟩ := List.pairwise_cons.mp hascending
    obtain ⟨hb, hoccupied⟩ := List.forall_mem_cons.mp hoccupied
    obtain ⟨hdepth, huniform⟩ := List.forall_mem_cons.mp huniform
    exact ⟨hbelow, hb, hdepth, hrest, hoccupied, huniform⟩
  · rintro ⟨hbelow, hb, hdepth, hrest⟩
    exact ⟨List.pairwise_cons.mpr ⟨hbelow, hrest.ascending⟩,
      List.forall_mem_cons.mpr ⟨hb, hrest.occupied⟩,
      List.forall_mem_cons.mpr ⟨hdepth, hrest.uniform⟩⟩

/-- The only key that a node may add is its own depth. -/
theorem depth_of_mem_place (h : b ∈ place bs n) :
    b.depth = n.depth ∨ ∃ c ∈ bs, c.depth = b.depth := by
  fun_induction place bs n with
  | case1 n => exact Or.inl (congrArg Bucket.depth (List.mem_singleton.mp h))
  | case2 c rest n hlt =>
    rcases List.mem_cons.mp h with rfl | h
    · exact Or.inl rfl
    · exact Or.inr ⟨b, h, rfl⟩
  | case3 c rest n hlt heq =>
    rcases List.mem_cons.mp h with rfl | h
    · exact Or.inl heq.symm
    · exact Or.inr ⟨b, List.mem_cons_of_mem _ h, rfl⟩
  | case4 c rest n hlt hne ih =>
    rcases List.mem_cons.mp h with rfl | h
    · exact Or.inr ⟨b, List.mem_cons_self, rfl⟩
    · rcases ih h with h | ⟨c', hc', hdepth⟩
      · exact Or.inl h
      · exact Or.inr ⟨c', List.mem_cons_of_mem _ hc', hdepth⟩

theorem Ordered.place (h : Ordered bs) (n : TraversalNode) : Ordered (place bs n) := by
  fun_induction Impact.place bs n with
  | case1 n => exact cons_iff.mpr ⟨nofun, List.cons_ne_nil _ _, by simp, .nil⟩
  | case2 b rest n hlt =>
    refine cons_iff.mpr ⟨?_, List.cons_ne_nil _ _, by simp, h⟩
    refine List.forall_mem_cons.mpr ⟨hlt, fun c hc => ?_⟩
    exact Nat.lt_trans hlt ((cons_iff.mp h).1 c hc)
  | case3 b rest n hlt heq =>
    obtain ⟨hbelow, hb, hdepth, hrest⟩ := cons_iff.mp h
    refine cons_iff.mpr ⟨hbelow, List.append_ne_nil_of_left_ne_nil hb _, fun m hm => ?_, hrest⟩
    rcases List.mem_append.mp hm with hm | hm
    · exact hdepth m hm
    · exact List.mem_singleton.mp hm ▸ heq
  | case4 b rest n hlt hne ih =>
    obtain ⟨hbelow, hb, hdepth, hrest⟩ := cons_iff.mp h
    refine cons_iff.mpr ⟨fun c hc => ?_, hb, hdepth, ih hrest⟩
    rcases depth_of_mem_place hc with hn | ⟨c', hc', hc⟩
    · omega
    · exact hc ▸ hbelow c' hc'

/-- A node that is no nearer than the others goes to the very end. -/
theorem flatMap_place (h : Ordered bs) (hn : ∀ b ∈ bs, b.depth ≤ n.depth) :
    (place bs n).flatMap (·.nodes) = bs.flatMap (·.nodes) ++ [n] := by
  fun_induction place bs n with
  | case1 n => rfl
  | case2 b rest n hlt => exact absurd hlt (Nat.not_lt.mpr (hn b List.mem_cons_self))
  | case3 b rest n hlt heq =>
    -- no bucket is behind that of the greatest depth
    have hrest : rest = [] := by
      refine List.eq_nil_iff_forall_not_mem.mpr fun c hc => ?_
      have hbelow : n.depth < c.depth := heq ▸ (Ordered.cons_iff.mp h).1 c hc
      exact absurd (hn c (List.mem_cons_of_mem _ hc)) (Nat.not_le.mpr hbelow)
    rw [hrest]
    simp
  | case4 b rest n hlt hne ih =>
    obtain ⟨-, -, -, hrest⟩ := Ordered.cons_iff.mp h
    rw [List.flatMap_cons, List.flatMap_cons, List.append_assoc,
      ih hrest (List.forall_mem_cons.mp hn).2]

/-- The buckets of nodes that stand by ascending depth. -/
theorem foldl_place (h : nodes.Pairwise (·.depth ≤ ·.depth)) :
    Ordered (nodes.foldl place []) ∧ (nodes.foldl place []).flatMap (·.nodes) = nodes := by
  induction nodes using List.reverseRecOn with
  | nil => exact ⟨.nil, rfl⟩
  | append_singleton nodes n ih =>
    obtain ⟨hnodes, -, hn⟩ := List.pairwise_append.mp h
    obtain ⟨hordered, hflat⟩ := ih hnodes
    rw [List.foldl_append, List.foldl_cons, List.foldl_nil]
    refine ⟨hordered.place n, ?_⟩
    rw [flatMap_place hordered, hflat]
    -- every bucket has a node, and no node is further away than the last one
    intro b hb
    obtain ⟨m, hm⟩ := List.exists_mem_of_ne_nil _ (hordered.occupied b hb)
    rw [← hordered.uniform b hb m hm]
    refine hn m ?_ n (List.mem_singleton_self n)
    rw [← hflat]
    exact List.mem_flatMap.mpr ⟨b, hb, hm⟩

/-- The keys of the buckets are the depths of the nodes. -/
theorem Ordered.mem_depths (h : Ordered bs) {k : Nat} :
    k ∈ bs.map (·.depth) ↔ ∃ n ∈ bs.flatMap (·.nodes), n.depth = k := by
  constructor
  · intro hk
    obtain ⟨b, hb, rfl⟩ := List.mem_map.mp hk
    obtain ⟨n, hn⟩ := List.exists_mem_of_ne_nil _ (h.occupied b hb)
    exact ⟨n, List.mem_flatMap.mpr ⟨b, hb, hn⟩, h.uniform b hb n hn⟩
  · rintro ⟨n, hn, rfl⟩
    obtain ⟨b, hb, hn⟩ := List.mem_flatMap.mp hn
    exact List.mem_map.mpr ⟨b, hb, (h.uniform b hb n hn).symm⟩

/-! ### Counts -/

variable {labels : List String} {label : String}

theorem addUp_tally (counts : List (String × Nat)) (label : String) :
    addUp ((tally counts label).map (·.2)) = addUp (counts.map (·.2)) + 1 := by
  fun_induction tally counts label with
  | case1 label => rfl
  | case2 count rest label =>
    change count + 1 + addUp _ = count + addUp _ + 1
    exact Nat.add_right_comm _ _ _
  | case3 counted count rest label hne ih =>
    change count + addUp _ = count + addUp _ + 1
    rw [ih, Nat.add_assoc]

/-- The counts of all labels together. -/
theorem addUp_foldl_tally (labels : List String) :
    addUp ((labels.foldl tally []).map (·.2)) = labels.length := by
  induction labels using List.reverseRecOn with
  | nil => rfl
  | append_singleton labels label ih =>
    rw [List.foldl_append, List.foldl_cons, List.foldl_nil, addUp_tally, ih, List.length_append]
    rfl

theorem tally_of_notMem (count : String → Nat) (h : label ∉ labels) :
    tally (labels.map fun l => (l, count l)) label =
      (labels.map fun l => (l, count l)) ++ [(label, 1)] := by
  induction labels with
  | nil => rfl
  | cons l rest ih =>
    have hl : l ≠ label := (List.ne_of_not_mem_cons h).symm
    rw [List.map_cons, tally, if_neg hl, ih (List.not_mem_of_not_mem_cons h), List.cons_append]

theorem tally_of_mem (count : String → Nat) (hnodup : labels.Nodup) (h : label ∈ labels) :
    tally (labels.map fun l => (l, count l)) label =
      labels.map fun l => (l, if l = label then count l + 1 else count l) := by
  induction labels with
  | nil => cases h
  | cons l rest ih =>
    obtain ⟨hl, hrest⟩ := List.nodup_cons.mp hnodup
    rw [List.map_cons, List.map_cons, tally]
    by_cases heq : l = label
    · rw [if_pos heq, if_pos heq]
      -- the label does not come again
      refine congrArg _ (List.map_congr_left fun other hother => ?_)
      rw [if_neg]
      rintro rfl
      exact hl (heq ▸ hother)
    · rw [if_neg heq, if_neg heq, ih hrest (List.mem_of_ne_of_mem (Ne.symm heq) h)]

/-- Every label is counted as often as it occurs, at its first appearance. -/
theorem foldl_tally (labels : List String) :
    labels.foldl tally [] = (firstSeen labels).map fun label => (label, labels.count label) := by
  induction labels using List.reverseRecOn with
  | nil => rfl
  | append_singleton labels label ih =>
    have hcount (l : String) :
        (labels ++ [label]).count l = if l = label then labels.count l + 1 else labels.count l := by
      rw [List.count_append, List.count_singleton]
      by_cases h : l = label
      · simp [h]
      · simp [h, Ne.symm h]
    have hfirst : label ∈ firstSeen labels ↔ label ∈ labels :=
      mem_firstSeenAfter.trans (and_iff_left List.not_mem_nil)
    rw [List.foldl_append, List.foldl_cons, List.foldl_nil, ih, firstSeen_concat]
    by_cases h : label ∈ labels
    · have hnodup : (firstSeen labels).Nodup := nodup_firstSeenAfter [] labels
      rw [if_pos h, tally_of_mem _ hnodup (hfirst.mpr h)]
      exact List.map_congr_left fun l _ => by rw [hcount]
    · rw [if_neg h, tally_of_notMem _ (mt hfirst.mp h), List.map_append]
      have hold : ∀ l ∈ firstSeen labels,
          (l, labels.count l) = (l, (labels ++ [label]).count l) := by
        intro l hl
        rw [hcount, if_neg]
        rintro rfl
        exact h (hfirst.mp hl)
      have hnew : (labels ++ [label]).count label = 1 := by
        rw [hcount, if_pos rfl, List.count_eq_zero.mpr h]
      rw [List.map_congr_left hold, List.map_singleton, hnew]

/-- Counts of the labels in a list, in the order of their first appearance. -/
structure Counts (labels : List String) (counts : List (String × Nat)) : Prop where
  names : counts.map (·.1) = firstSeen labels
  count : ∀ c ∈ counts, c.2 = labels.count c.1
  all : addUp (counts.map (·.2)) = labels.length

theorem counts_foldl_tally (labels : List String) : Counts labels (labels.foldl tally []) where
  names := by
    rw [foldl_tally, List.map_map]
    exact List.map_id _
  count c hc := by
    rw [foldl_tally] at hc
    obtain ⟨label, -, rfl⟩ := List.mem_map.mp hc
    rfl
  all := addUp_foldl_tally labels

end Impact

end ArchFacts
