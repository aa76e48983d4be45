import ArchFacts.Proofs.Graph.Adjacency
import ArchFacts.Proofs.Graph.ShortestPath

/-!
# What the path that is found looks like

A search for a path goes on from a trail along the edges at its end, and of the trails that come to
a name it keeps the first. So the trail it answers with is *traced*: each of its edges is the first
at its place that leads on to the next name, and each name on it is one hop farther from the source
than the one before (`Trail.Traced`, kept by every level). A name has one distance, so no name comes
twice on a traced trail, and there are as many edges as the goal is far away.
-/

namespace ArchFacts

/-- The edge is of an allowed kind and leads to `b`; no kinds at all allow every one. -/
def Edge.LeadsTo (kinds : List RelationKind) (b : String) (e : Edge) : Prop :=
  (kinds = [] ∨ e.kind ∈ kinds) ∧ e.target = b

namespace Graph

variable {g : Graph} {kinds : List RelationKind} {source goal : String} {d : Nat}

/-- Of the edges that `a` declares, in their order, `e` is the first that leads to `b`. -/
def FirstEdge (g : Graph) (kinds : List RelationKind) (a b : String) (e : Edge) : Prop :=
  ∃ before after, g.outgoing a = before ++ e :: after ∧ e.LeadsTo kinds b ∧
    ∀ other ∈ before, ¬other.LeadsTo kinds b

theorem FirstEdge.mem_outgoing {a b : String} {e : Edge} (h : g.FirstEdge kinds a b e) :
    e ∈ g.outgoing a := by
  obtain ⟨before, after, hedges, -⟩ := h
  rw [hedges]
  exact List.mem_append_right _ List.mem_cons_self

theorem FirstEdge.target_eq {a b : String} {e : Edge} (h : g.FirstEdge kinds a b e) :
    e.target = b := by
  obtain ⟨-, -, -, ⟨-, htarget⟩, -⟩ := h
  exact htarget

/-- Crossing the edges at a name in order comes to another name by the first that leads there. -/
theorem find?_crossings {a b : String} {e : Edge}
    (h : (g.crossings .forward kinds a).find? (·.target == b) = some e) :
    g.FirstEdge kinds a b e := by
  have hleads (other : Edge) :
      chosen kinds other.kind = true ∧ (other.target == b) = true ↔ other.LeadsTo kinds b :=
    and_congr chosen_iff beq_iff_eq
  rw [crossings, List.find?_filter, List.find?_eq_some_iff_append] at h
  obtain ⟨he, before, after, hedges, hbefore⟩ := h
  refine ⟨before, after, hedges, (hleads e).mp (of_decide_eq_true he), fun other hother hlead => ?_⟩
  have hnot := hbefore other hother
  rw [decide_eq_true ((hleads other).mpr hlead)] at hnot
  cases hnot

/-! ### Traced trails -/

namespace Trail

/-- The names along a trail, the source first. -/
def names (source : String) (t : Trail) : List String := source :: t.edges.map (·.target)

/-- Each edge of a trail from the source is the first that leads on from the name before it, and
leads one hop farther from the source. -/
inductive Traced (g : Graph) (kinds : List RelationKind) (source : String) : Trail → Prop where
  | start : Traced g kinds source ⟨source, []⟩
  | onward {t : Trail} {e : Edge} (traced : Traced g kinds source t)
      (first : g.FirstEdge kinds t.name e.target e)
      (farther : g.Distance .forward kinds source e.target (t.edges.length + 1)) :
      Traced g kinds source ⟨e.target, t.edges ++ [e]⟩

theorem names_onward (source : String) (t : Trail) (e : Edge) :
    names source ⟨e.target, t.edges ++ [e]⟩ = names source t ++ [e.target] := by
  simp [names]

theorem length_names (source : String) (t : Trail) :
    (t.names source).length = t.edges.length + 1 := by
  simp [names]

namespace Traced

variable {t : Trail}

theorem getLast?_names (h : t.Traced g kinds source) : (t.names source).getLast? = some t.name := by
  cases h with
  | start => rfl
  | @onward t e => rw [names_onward, List.getLast?_concat]

/-- No name on the trail is farther away than the trail is long. -/
theorem within (h : t.Traced g kinds source) :
    ∀ name ∈ t.names source, g.Within .forward kinds t.edges.length source name := by
  induction h with
  | start =>
    intro name hname
    exact within_zero.mpr (List.mem_singleton.mp hname)
  | @onward t e _ _ farther ih =>
    intro name hname
    rw [List.length_append]
    rw [names_onward] at hname
    rcases List.mem_append.mp hname with hname | hname
    · exact (ih name hname).mono (Nat.le_succ _)
    · rw [List.mem_singleton.mp hname]
      exact farther.within (Nat.le_refl _)

theorem nodup_names (h : t.Traced g kinds source) : (t.names source).Nodup := by
  induction h with
  | start => simp [names]
  | @onward t e traced _ farther ih =>
    -- what came before is nearer than the name that the last edge leads to
    have hnew : e.target ∉ t.names source := by
      intro hmem
      obtain ⟨n, hn, walk⟩ := traced.within _ hmem
      exact Nat.not_succ_le_self _ (Nat.le_trans (farther.2 n walk) hn)
    rw [names_onward]
    refine List.nodup_append.mpr ⟨ih, by simp, ?_⟩
    rintro a ha b hb rfl
    exact hnew (List.mem_singleton.mp hb ▸ ha)

/-- The edge at a place of the trail is the first that leads on from the name at that place. -/
theorem firstEdge (h : t.Traced g kinds source) {i : Nat} {e : Edge} (he : t.edges[i]? = some e) :
    ∃ a, (t.names source)[i]? = some a ∧ g.FirstEdge kinds a e.target e := by
  induction h with
  | start => simp at he
  | @onward t last traced first _ ih =>
    rw [names_onward]
    rcases Nat.lt_trichotomy i t.edges.length with hlt | rfl | hgt
    · rw [List.getElem?_append_left hlt] at he
      obtain ⟨a, ha, hfirst⟩ := ih he
      rw [List.getElem?_append_left (by rw [length_names]; omega)]
      exact ⟨a, ha, hfirst⟩
    · -- the last edge goes on from the end of the trail before it
      have hlast : (t.names source)[t.edges.length]? = some t.name := by
        rw [← traced.getLast?_names, List.getLast?_eq_getElem?, length_names]
        rfl
      obtain rfl : last = e := by simpa using he
      rw [List.getElem?_append_left (by rw [length_names]; omega)]
      exact ⟨t.name, hlast, first⟩
    · have hnone : (t.edges ++ [last])[i]? = none := by
        rw [List.getElem?_eq_none_iff, List.length_append]
        exact hgt
      rw [hnone] at he
      cases he

end Traced

end Trail

/-! ### What a search keeps -/

namespace Search

variable {s : Search}

/-- Of the trails that come to a name, the first is kept. -/
theorem find?_of_mem_foldl_find {ts : List Trail} {t : Trail}
    (h : t ∈ (ts.foldl find s).level) :
    t ∈ s.level ∨ t.name ∉ s.seen ∧ ts.find? (·.name == t.name) = some t := by
  induction ts generalizing s with
  | nil => exact Or.inl h
  | cons first rest ih =>
    rw [List.foldl_cons] at h
    by_cases hseen : first.name ∈ s.seen
    · have hskip : s.find first = s := if_pos hseen
      rw [hskip] at h
      rcases ih h with h | ⟨hnew, hfind⟩
      · exact Or.inl h
      · have hother : (first.name == t.name) = false :=
          beq_false_of_ne fun heq => hnew (heq ▸ hseen)
        exact Or.inr ⟨hnew, by rw [List.find?_cons, hother, hfind]⟩
    · have hkeep : s.find first = ⟨first.name :: s.seen, s.level ++ [first]⟩ := if_neg hseen
      rw [hkeep] at h
      rcases ih h with h | ⟨hnew, hfind⟩
      · rcases List.mem_append.mp h with h | h
        · exact Or.inl h
        · obtain rfl := List.mem_singleton.mp h
          exact Or.inr ⟨hseen, by rw [List.find?_cons, beq_self_eq_true]⟩
      · obtain ⟨hne, hnew⟩ := not_or.mp (mt List.mem_cons.mpr hnew)
        have hother : (first.name == t.name) = false := beq_false_of_ne (Ne.symm hne)
        exact Or.inr ⟨hnew, by rw [List.find?_cons, hother, hfind]⟩

/-- The first trail to a name that goes on from `t` does so by the first edge that leads there. -/
theorem find?_extend {t next : Trail} {b : String}
    (h : (extend g kinds t).find? (·.name == b) = some next) :
    ∃ e, next = ⟨e.target, t.edges ++ [e]⟩ ∧ g.FirstEdge kinds t.name e.target e := by
  rw [extend, List.find?_map] at h
  obtain ⟨e, hfind, rfl⟩ := Option.map_eq_some_iff.mp h
  have hfirst : g.FirstEdge kinds t.name b e := find?_crossings hfind
  obtain rfl : e.target = b := hfirst.target_eq
  exact ⟨e, rfl, hfirst⟩

namespace Reached

/-- **One more level** of traced trails. -/
theorem traced_nextLevel (h : Reached g kinds source d s)
    (ht : ∀ t ∈ s.level, t.Traced g kinds source) :
    ∀ t ∈ (s.nextLevel g kinds).level, t.Traced g kinds source := by
  intro t hmem
  have hdistance : g.Distance .forward kinds source t.name (d + 1) :=
    (h.nextLevel.level t.name).mp (List.mem_map_of_mem hmem)
  rcases find?_of_mem_foldl_find hmem with hmem | ⟨-, hfind⟩
  · cases hmem
  · rw [List.find?_flatMap] at hfind
    obtain ⟨before, hbefore, hnext⟩ := List.exists_of_findSome?_eq_some hfind
    obtain ⟨e, rfl, hfirst⟩ := find?_extend hnext
    rw [← h.length before hbefore] at hdistance
    exact .onward (ht before hbefore) hfirst hdistance

/-- **The trail to the goal** is traced, whatever the number of levels. -/
theorem traced_trailTo (h : Reached g kinds source d s)
    (ht : ∀ t ∈ s.level, t.Traced g kinds source) {left : Nat} {t : Trail}
    (htrail : trailTo g kinds goal left s = some t) :
    t.name = goal ∧ t.Traced g kinds source := by
  induction left generalizing d s with
  | zero => cases htrail
  | succ left ih =>
    have hlevel := h.traced_nextLevel ht
    rw [trailTo] at htrail
    cases hfind : (s.nextLevel g kinds).level.find? (·.name == goal) with
    | some found =>
      rw [hfind] at htrail
      obtain rfl := Option.some.inj htrail
      have hname := List.find?_some hfind
      exact ⟨eq_of_beq hname, hlevel _ (List.mem_of_find?_eq_some hfind)⟩
    | none =>
      rw [hfind] at htrail
      exact ih h.nextLevel hlevel htrail

end Reached

end Search

/-! ### The result -/

/-- A search for a path ends with a traced trail to the goal, or without a path. -/
theorem findPath_cases (g : Graph) (source goal : String) (kinds : List RelationKind)
    (maxDepth : Nat) :
    (∃ t : Trail, t.Traced g kinds source ∧ t.name = goal ∧
      g.findPath source goal kinds maxDepth =
        ⟨source, goal, true, t.names source, t.edges⟩) ∨
    g.findPath source goal kinds maxDepth = ⟨source, goal, false, [], []⟩ := by
  by_cases hsame : source = goal
  · left
    refine ⟨⟨source, []⟩, .start, hsame, ?_⟩
    rw [findPath, if_pos hsame]
    rfl
  · cases h : g.trail? source goal kinds maxDepth with
    | none => exact Or.inr (findPath_of_no_trail hsame h)
    | some t =>
      left
      have hstart : ∀ t ∈ [(⟨source, []⟩ : Trail)], t.Traced g kinds source := by
        intro t ht
        obtain rfl := List.mem_singleton.mp ht
        exact .start
      obtain ⟨hname, htraced⟩ := (Search.Reached.atStart g kinds source).traced_trailTo hstart h
      exact ⟨t, htraced, hname, findPath_of_trail hsame h⟩

end Graph

/-- A path from the source to the goal, with as few edges as there can be. -/
structure PathResult.Shortest (g : Graph) (kinds : List RelationKind) (source goal : String)
    (r : PathResult) : Prop where
  head : r.path.head? = some source
  last : r.path.getLast? = some goal
  nodup : r.path.Nodup
  length : r.path.length = r.edges.length + 1
  /-- Every walk from the source to the goal has at least as many edges. -/
  minimal : ∀ n, g.Hops .forward kinds n source goal → r.edges.length ≤ n
  /-- The edge at a place leads from the name at that place to the next one. -/
  ends : ∀ i a b e, r.path[i]? = some a → r.path[i + 1]? = some b → r.edges[i]? = some e →
    e.source = a ∧ e.target = b
  /-- Of the edges that a name declares it is the first that leads there. -/
  first : ∀ i a b e, r.path[i]? = some a → r.path[i + 1]? = some b → r.edges[i]? = some e →
    g.FirstEdge kinds a b e

namespace Graph

variable {facts : List Fact} {kinds : List RelationKind} {source goal : String}

/-- The two names beside an edge of a traced trail. -/
theorem Trail.Traced.firstEdge_between {g : Graph} {t : Trail} (h : t.Traced g kinds source)
    {i : Nat} {a b : String} {e : Edge} (ha : (t.names source)[i]? = some a)
    (hb : (t.names source)[i + 1]? = some b) (he : t.edges[i]? = some e) :
    g.FirstEdge kinds a b e := by
  obtain ⟨a', ha', hfirst⟩ := h.firstEdge he
  obtain rfl : a' = a := Option.some.inj (ha'.symm.trans ha)
  have htarget : (t.names source)[i + 1]? = some e.target := by
    rw [Trail.names, List.getElem?_cons_succ, List.getElem?_map, he]
    rfl
  obtain rfl : e.target = b := Option.some.inj (htarget.symm.trans hb)
  exact hfirst

/-- **A path is found exactly if there is one** within the depth ceiling, and then it is a shortest
path without repetition, spelled by the first edge at each of its names that leads on to the next
one. Otherwise there are no names and no edges. -/
theorem findPath_shortest (facts : List Fact) (source goal : String) (kinds : List RelationKind)
    (maxDepth : Nat) :
    (((build facts).findPath source goal kinds maxDepth).found = true ↔
      (build facts).Within .forward kinds (if maxDepth = 0 then 10 else min maxDepth 20)
        source goal) ∧
    (((build facts).findPath source goal kinds maxDepth).found = true →
      ((build facts).findPath source goal kinds maxDepth).Shortest (build facts) kinds source
        goal) ∧
    (((build facts).findPath source goal kinds maxDepth).found = false →
      ((build facts).findPath source goal kinds maxDepth).path = [] ∧
        ((build facts).findPath source goal kinds maxDepth).edges = []) := by
  refine ⟨⟨fun hfound => ?_, fun hwithin => ?_⟩, fun hfound => ?_, fun hfound => ?_⟩
  · obtain ⟨hle, hdistance⟩ := findPath_found_iff.mp ⟨hfound, rfl⟩
    exact hdistance.within hle
  · obtain ⟨d, hle, hdistance⟩ := hwithin.distance
    exact (findPath_found_iff.mpr ⟨hle, hdistance⟩).1
  · have hdistance := (findPath_found_iff.mp ⟨hfound, rfl⟩).2
    rcases findPath_cases (build facts) source goal kinds maxDepth with
      ⟨t, ht, hname, hresult⟩ | hresult
    · rw [hresult] at hdistance ⊢
      exact
        { head := rfl
          last := by rw [ht.getLast?_names, hname]
          nodup := ht.nodup_names
          length := t.length_names source
          minimal := hdistance.2
          ends := fun i a b e ha hb he => by
            have hfirst := ht.firstEdge_between ha hb he
            exact ⟨(Graph.mem_outgoing.mp hfirst.mem_outgoing).2, hfirst.target_eq⟩
          first := fun i a b e ha hb he => ht.firstEdge_between ha hb he }
    · rw [hresult] at hfound
      cases hfound
  · rcases findPath_cases (build facts) source goal kinds maxDepth with
      ⟨t, -, -, hresult⟩ | hresult
    · rw [hresult] at hfound
      cases hfound
    · rw [hresult]
      exact ⟨rfl, rfl⟩

/-- Three relations from one module to the same other one, and a longer way beside them. -/
def parallel : List Fact :=
  [(((Fact.of .codeModule "a").withRelation .calls "b").withRelation .imports "b").withRelation
      .dependsOn "b",
    (Fact.of .codeModule "b").withRelation .imports "c",
    (Fact.of .codeModule "c").withRelation .imports "a"]

/-- The call is not allowed, so the import is the first edge that leads on. -/
theorem findPath_shortest_parallel :
    ((build parallel).findPath "a" "c" [.imports, .dependsOn] 2).found = true ∧
      ((build parallel).findPath "a" "c" [.imports, .dependsOn] 2).edges.map (·.kind) =
        [.imports, .imports] ∧
      ((build parallel).findPath "a" "c" [.imports, .dependsOn] 2).Shortest (build parallel)
        [.imports, .dependsOn] "a" "c" ∧
      ((build parallel).findPath "a" "c" [.imports, .dependsOn] 1).found = false ∧
      ((build parallel).findPath "a" "c" [.imports, .dependsOn] 1).path = [] := by
  have hfound : ((build parallel).findPath "a" "c" [.imports, .dependsOn] 2).found = true := by
    decide
  have hmissing : ((build parallel).findPath "a" "c" [.imports, .dependsOn] 1).found = false := by
    decide
  exact ⟨hfound, by decide, (findPath_shortest parallel "a" "c" _ 2).2.1 hfound, hmissing,
    ((findPath_shortest parallel "a" "c" _ 1).2.2 hmissing).1⟩

end Graph

end ArchFacts
