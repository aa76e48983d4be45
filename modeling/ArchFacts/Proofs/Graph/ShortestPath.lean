import ArchFacts.Graph.Path
import ArchFacts.Proofs.Graph.Distance

/-!
# What a search for a path finds

A search goes from level to level as a traversal does, with a trail for every name in place of the
name alone. By induction on the levels its last level holds the names at the next distance, each
with a trail of as many edges (`Reached`). The trail it answers with is the first that ends at the
goal, so the goal is exactly as far away as that trail is long (`exists_trailTo_iff`).
-/

namespace ArchFacts.Graph

variable {g : Graph} {kinds : List RelationKind} {source goal : String} {d : Nat}

namespace Search

variable {s : Search}

/-! ### One level -/

theorem names_foldl_find (s : Search) (ts : List Trail) :
    (ts.foldl find s).level.map (·.name) =
      s.level.map (·.name) ++ firstSeenAfter s.seen (ts.map (·.name)) := by
  induction ts generalizing s with
  | nil => exact (List.append_nil _).symm
  | cons t rest ih =>
    rw [List.foldl_cons, ih, List.map_cons, firstSeenAfter]
    by_cases ht : t.name ∈ s.seen
    · rw [find, if_pos ht, if_pos ht]
    · rw [find, if_neg ht, if_neg ht, List.map_append, List.append_assoc]
      rfl

theorem seen_foldl_find (s : Search) (ts : List Trail) :
    (ts.foldl find s).seen = (firstSeenAfter s.seen (ts.map (·.name))).reverse ++ s.seen := by
  induction ts generalizing s with
  | nil => rfl
  | cons t rest ih =>
    rw [List.foldl_cons, ih, List.map_cons, firstSeenAfter]
    by_cases ht : t.name ∈ s.seen
    · rw [find, if_pos ht, if_pos ht]
    · rw [find, if_neg ht, if_neg ht, List.reverse_cons, List.append_assoc]
      rfl

/-- A trail that is kept was there or was found. -/
theorem mem_foldl_find {ts : List Trail} {t : Trail} (h : t ∈ (ts.foldl find s).level) :
    t ∈ s.level ∨ t ∈ ts := by
  induction ts generalizing s with
  | nil => exact Or.inl h
  | cons first rest ih =>
    rcases ih h with h | h
    · unfold find at h
      split at h
      · exact Or.inl h
      · rcases List.mem_append.mp h with h | h
        · exact Or.inl h
        · exact Or.inr (List.mem_cons.mpr (Or.inl (List.mem_singleton.mp h)))
    · exact Or.inr (List.mem_cons_of_mem _ h)

/-- The trails of a level go on to the names one hop away from those of the level. -/
theorem mem_names_extend {name : String} {ts : List Trail} :
    name ∈ (ts.flatMap (extend g kinds)).map (·.name) ↔
      ∃ b ∈ ts.map (·.name), g.Hop .forward kinds b name := by
  have hextend (t : Trail) : name ∈ (extend g kinds t).map (·.name) ↔
      g.Hop .forward kinds t.name name := by
    have hnames : (extend g kinds t).map (·.name) =
        (g.crossings .forward kinds t.name).map (·.reached .forward) := List.map_map
    rw [hnames]
    exact mem_map_crossings
  rw [List.map_flatMap, List.mem_flatMap]
  constructor
  · rintro ⟨t, ht, hname⟩
    exact ⟨t.name, List.mem_map.mpr ⟨t, ht, rfl⟩, (hextend t).mp hname⟩
  · rintro ⟨b, hb, hop⟩
    obtain ⟨t, ht, rfl⟩ := List.mem_map.mp hb
    exact ⟨t, ht, (hextend t).mpr hop⟩

theorem length_of_mem_extend {t next : Trail} (h : next ∈ extend g kinds t) :
    next.edges.length = t.edges.length + 1 := by
  obtain ⟨e, -, rfl⟩ := List.mem_map.mp h
  exact List.length_append

/-! ### All levels -/

/-- What a search has gathered when it has gone through the names at distances up to `d`. -/
structure Reached (g : Graph) (kinds : List RelationKind) (source : String) (d : Nat) (s : Search) :
    Prop where
  level : ∀ name, name ∈ s.level.map (·.name) ↔ g.Distance .forward kinds source name d
  seen : ∀ name, name ∈ s.seen ↔ g.Within .forward kinds d source name
  length : ∀ t ∈ s.level, t.edges.length = d

namespace Reached

theorem atStart (g : Graph) (kinds : List RelationKind) (source : String) :
    Reached g kinds source 0 ⟨[source], [⟨source, []⟩]⟩ where
  level _ := List.mem_singleton.trans distance_zero.symm
  seen _ := List.mem_singleton.trans within_zero.symm
  length t ht := by
    obtain rfl := List.mem_singleton.mp ht
    rfl

/-- The names that a level finds are those at the next distance. -/
theorem mem_fresh (h : Reached g kinds source d s) {name : String} :
    name ∈ firstSeenAfter s.seen ((s.level.flatMap (extend g kinds)).map (·.name)) ↔
      g.Distance .forward kinds source name (d + 1) := by
  rw [mem_firstSeenAfter, mem_names_extend, h.seen, distance_succ]
  exact and_congr_left fun _ => exists_congr fun b => and_congr_left fun _ => h.level b

/-- **One more level.** -/
theorem nextLevel (h : Reached g kinds source d s) :
    Reached g kinds source (d + 1) (s.nextLevel g kinds) where
  level name := by
    rw [Search.nextLevel, names_foldl_find]
    exact h.mem_fresh
  seen name := by
    rw [Search.nextLevel, seen_foldl_find, List.mem_append, List.mem_reverse, within_succ]
    exact (or_congr h.mem_fresh (h.seen name)).trans or_comm
  length t ht := by
    rcases mem_foldl_find ht with ht | ht
    · cases ht
    · obtain ⟨before, hbefore, hnext⟩ := List.mem_flatMap.mp ht
      rw [length_of_mem_extend hnext, h.length before hbefore]

/-- The search answers with a trail of `k` edges if the goal is that far away and within the levels
that it goes through. -/
theorem exists_trailTo_iff (h : Reached g kinds source d s) (left : Nat) {k : Nat} :
    (∃ t, trailTo g kinds goal left s = some t ∧ t.edges.length = k) ↔
      d < k ∧ k ≤ d + left ∧ g.Distance .forward kinds source goal k := by
  induction left generalizing d s with
  | zero =>
    refine iff_of_false ?_ ?_
    · rintro ⟨t, ht, -⟩
      cases ht
    · rintro ⟨hlt, hle, -⟩
      exact Nat.not_le.mpr hlt hle
  | succ left ih =>
    have hnext := h.nextLevel
    rw [trailTo]
    cases hfind : (s.nextLevel g kinds).level.find? (·.name == goal) with
    | some t =>
      -- the goal is on this level, and no other distance can be its own
      have hmem : t ∈ (s.nextLevel g kinds).level := List.mem_of_find?_eq_some hfind
      have hname := List.find?_some hfind
      have hdist : g.Distance .forward kinds source goal (d + 1) :=
        (hnext.level goal).mp (List.mem_map.mpr ⟨t, hmem, eq_of_beq hname⟩)
      have hlength : t.edges.length = d + 1 := hnext.length t hmem
      constructor
      · rintro ⟨t', ht', rfl⟩
        obtain rfl := Option.some.inj ht'
        rw [hlength]
        exact ⟨Nat.lt_succ_self d, by omega, hdist⟩
      · rintro ⟨-, -, hk⟩
        exact ⟨t, rfl, hlength.trans (hdist.unique hk)⟩
    | none =>
      have hfar : ¬g.Distance .forward kinds source goal (d + 1) := by
        intro hdist
        obtain ⟨t, ht, hname⟩ := List.mem_map.mp ((hnext.level goal).mpr hdist)
        exact List.find?_eq_none.mp hfind t ht (beq_iff_eq.mpr hname)
      refine (ih hnext).trans ?_
      constructor
      · rintro ⟨hlt, hle, hk⟩
        exact ⟨by omega, by omega, hk⟩
      · rintro ⟨hlt, hle, hk⟩
        have hne : k ≠ d + 1 := by
          rintro rfl
          exact hfar hk
        exact ⟨by omega, by omega, hk⟩

end Reached

end Search

/-- The trail that a search for a path answers with, if the goal is another node. -/
def trail? (g : Graph) (source goal : String) (kinds : List RelationKind) (maxDepth : Nat) :
    Option Trail :=
  Search.trailTo g kinds goal (ceiling maxDepth defaultPathDepth greatestPathDepth)
    ⟨[source], [⟨source, []⟩]⟩

theorem findPath_of_trail {maxDepth : Nat} {t : Trail} (hne : source ≠ goal)
    (h : g.trail? source goal kinds maxDepth = some t) :
    g.findPath source goal kinds maxDepth =
      ⟨source, goal, true, source :: t.edges.map (·.target), t.edges⟩ := by
  unfold trail? at h
  unfold findPath
  rw [if_neg hne]
  dsimp only
  rw [h]

theorem findPath_of_no_trail {maxDepth : Nat} (hne : source ≠ goal)
    (h : g.trail? source goal kinds maxDepth = none) :
    g.findPath source goal kinds maxDepth = ⟨source, goal, false, [], []⟩ := by
  unfold trail? at h
  unfold findPath
  rw [if_neg hne]
  dsimp only
  rw [h]

/-- A path of `d` edges is found if the goal is `d` hops away, within the depth ceiling. -/
theorem findPath_found_iff {maxDepth : Nat} :
    ((g.findPath source goal kinds maxDepth).found = true ∧
        (g.findPath source goal kinds maxDepth).edges.length = d) ↔
      d ≤ ceiling maxDepth defaultPathDepth greatestPathDepth ∧
        g.Distance .forward kinds source goal d := by
  by_cases hsame : source = goal
  · have hzero : g.Distance .forward kinds source goal 0 := distance_zero.mpr hsame.symm
    rw [findPath, if_pos hsame]
    constructor
    · rintro ⟨-, rfl⟩
      exact ⟨Nat.zero_le _, hzero⟩
    · rintro ⟨-, hd⟩
      exact ⟨rfl, hzero.unique hd⟩
  · have htrail : (∃ t, g.trail? source goal kinds maxDepth = some t ∧ t.edges.length = d) ↔
        0 < d ∧ d ≤ 0 + ceiling maxDepth defaultPathDepth greatestPathDepth ∧
          g.Distance .forward kinds source goal d :=
      (Search.Reached.atStart g kinds source).exists_trailTo_iff _
    rw [Nat.zero_add] at htrail
    constructor
    · rintro ⟨hfound, hlength⟩
      cases h : g.trail? source goal kinds maxDepth with
      | none =>
        rw [findPath_of_no_trail hsame h] at hfound
        cases hfound
      | some t =>
        rw [findPath_of_trail hsame h] at hlength
        exact (htrail.mp ⟨t, h, hlength⟩).2
    · rintro ⟨hle, hd⟩
      have hpos : 0 < d := by
        refine Nat.pos_of_ne_zero ?_
        rintro rfl
        exact hsame (distance_zero.mp hd).symm
      obtain ⟨t, h, hlength⟩ := htrail.mpr ⟨hpos, hle, hd⟩
      rw [findPath_of_trail hsame h]
      exact ⟨rfl, hlength⟩

end ArchFacts.Graph
