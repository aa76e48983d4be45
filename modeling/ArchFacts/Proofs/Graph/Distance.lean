import ArchFacts.Graph.Traverse

/-!
# Hops and distances

A *hop* crosses an edge of an allowed kind in a direction, and the distance of a name is the least
number of hops that lead to it. Names at distance `d + 1` are those one hop away from a name at
distance `d` that are not nearer (`distance_succ`), which is what a search by levels computes.
-/

namespace ArchFacts.Graph

variable {g : Graph} {direction : Direction} {kinds : List RelationKind}

/-- An edge of an allowed kind leads from `a` to `b` in a direction; no kinds at all allow every
one. -/
def Hop (g : Graph) (direction : Direction) (kinds : List RelationKind) (a b : String) : Prop :=
  ∃ e ∈ g.adjacent direction a, (kinds = [] ∨ e.kind ∈ kinds) ∧ e.reached direction = b

/-- A walk of that many hops leads from a name to another one. -/
inductive Hops (g : Graph) (direction : Direction) (kinds : List RelationKind) :
    Nat → String → String → Prop where
  | none (a : String) : Hops g direction kinds 0 a a
  | snoc {n : Nat} {a b c : String} (walk : Hops g direction kinds n a b)
      (hop : g.Hop direction kinds b c) : Hops g direction kinds (n + 1) a c

/-- A walk of at most `n` hops leads from `a` to `b`. -/
def Within (g : Graph) (direction : Direction) (kinds : List RelationKind) (n : Nat)
    (a b : String) : Prop :=
  ∃ k ≤ n, g.Hops direction kinds k a b

/-- The least number of hops that lead from `a` to `b` is `d`. -/
def Distance (g : Graph) (direction : Direction) (kinds : List RelationKind) (a b : String)
    (d : Nat) : Prop :=
  g.Hops direction kinds d a b ∧ ∀ n, g.Hops direction kinds n a b → d ≤ n

theorem chosen_iff {kinds : List RelationKind} {kind : RelationKind} :
    chosen kinds kind = true ↔ kinds = [] ∨ kind ∈ kinds := by
  simp [chosen]

/-- Crossing the edges at a name reaches the names one hop away. -/
theorem mem_map_crossings {a b : String} :
    b ∈ (g.crossings direction kinds a).map (·.reached direction) ↔ g.Hop direction kinds a b := by
  unfold crossings Hop
  rw [List.mem_map]
  constructor
  · rintro ⟨e, he, hb⟩
    obtain ⟨he, hkind⟩ := List.mem_filter.mp he
    exact ⟨e, he, chosen_iff.mp hkind, hb⟩
  · rintro ⟨e, he, hkind, hb⟩
    exact ⟨e, List.mem_filter.mpr ⟨he, chosen_iff.mpr hkind⟩, hb⟩

theorem hops_zero {a b : String} : g.Hops direction kinds 0 a b ↔ b = a := by
  constructor
  · intro h
    cases h
    rfl
  · rintro rfl
    exact .none b

theorem hops_succ {n : Nat} {a c : String} :
    g.Hops direction kinds (n + 1) a c ↔
      ∃ b, g.Hops direction kinds n a b ∧ g.Hop direction kinds b c := by
  constructor
  · intro h
    cases h with
    | snoc walk hop => exact ⟨_, walk, hop⟩
  · rintro ⟨b, walk, hop⟩
    exact .snoc walk hop

theorem within_zero {a b : String} : g.Within direction kinds 0 a b ↔ b = a := by
  constructor
  · rintro ⟨k, hk, walk⟩
    obtain rfl := Nat.le_zero.mp hk
    exact hops_zero.mp walk
  · intro h
    exact ⟨0, Nat.le_refl 0, hops_zero.mpr h⟩

theorem Within.mono {m n : Nat} {a b : String} (h : g.Within direction kinds m a b) (hle : m ≤ n) :
    g.Within direction kinds n a b := by
  obtain ⟨k, hk, walk⟩ := h
  exact ⟨k, Nat.le_trans hk hle, walk⟩

/-- What is reached at all has a distance. -/
theorem Within.distance {n : Nat} {a b : String} (h : g.Within direction kinds n a b) :
    ∃ d ≤ n, g.Distance direction kinds a b d := by
  induction n with
  | zero =>
    obtain ⟨k, hk, walk⟩ := h
    obtain rfl := Nat.le_zero.mp hk
    exact ⟨0, Nat.le_refl 0, walk, fun _ _ => Nat.zero_le _⟩
  | succ n ih =>
    by_cases hn : g.Within direction kinds n a b
    · obtain ⟨d, hd, hdist⟩ := ih hn
      exact ⟨d, Nat.le_succ_of_le hd, hdist⟩
    · -- no shorter walk leads there, so this one is the shortest
      obtain ⟨k, hk, walk⟩ := h
      have hleast (m : Nat) (hm : g.Hops direction kinds m a b) : n + 1 ≤ m :=
        Nat.lt_of_not_le fun hle => hn ⟨m, hle, hm⟩
      obtain rfl := Nat.le_antisymm hk (hleast k walk)
      exact ⟨n + 1, Nat.le_refl _, walk, hleast⟩

theorem Distance.unique {a b : String} {d d' : Nat} (h : g.Distance direction kinds a b d)
    (h' : g.Distance direction kinds a b d') : d = d' :=
  Nat.le_antisymm (h.2 d' h'.1) (h'.2 d h.1)

theorem Distance.within {a b : String} {d n : Nat} (h : g.Distance direction kinds a b d)
    (hle : d ≤ n) : g.Within direction kinds n a b :=
  ⟨d, hle, h.1⟩

theorem distance_zero {a b : String} : g.Distance direction kinds a b 0 ↔ b = a := by
  constructor
  · intro h
    exact hops_zero.mp h.1
  · intro h
    exact ⟨hops_zero.mpr h, fun _ _ => Nat.zero_le _⟩

theorem distance_succ {a c : String} {d : Nat} :
    g.Distance direction kinds a c (d + 1) ↔
      (∃ b, g.Distance direction kinds a b d ∧ g.Hop direction kinds b c) ∧
        ¬g.Within direction kinds d a c := by
  constructor
  · rintro ⟨walk, hleast⟩
    refine ⟨?_, fun ⟨k, hk, hwalk⟩ => ?_⟩
    · obtain ⟨b, hab, hop⟩ := hops_succ.mp walk
      refine ⟨b, ⟨hab, fun n hn => ?_⟩, hop⟩
      exact Nat.le_of_succ_le_succ (hleast (n + 1) (.snoc hn hop))
    · exact absurd (hleast k hwalk) (Nat.not_le.mpr (Nat.lt_succ_of_le hk))
  · rintro ⟨⟨b, hab, hop⟩, hfar⟩
    refine ⟨.snoc hab.1 hop, fun n hn => Nat.lt_of_not_le fun hle => hfar ⟨n, hle, hn⟩⟩

theorem within_succ {a c : String} {d : Nat} :
    g.Within direction kinds (d + 1) a c ↔
      g.Within direction kinds d a c ∨ g.Distance direction kinds a c (d + 1) := by
  constructor
  · intro h
    obtain ⟨k, hk, hdist⟩ := h.distance
    rcases Nat.lt_or_eq_of_le hk with hlt | rfl
    · exact Or.inl (hdist.within (Nat.le_of_lt_succ hlt))
    · exact Or.inr hdist
  · rintro (h | h)
    · exact h.mono (Nat.le_succ d)
    · exact h.within (Nat.le_refl _)

end ArchFacts.Graph
