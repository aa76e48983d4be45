import ArchFacts.Proofs.Store.History

/-!
# The graph that a store keeps

A store keeps the graph of its facts as they were when it was last built. Facts that are added, read
or relabelled later do not show in it, and only clearing the store drops it. So what a store answers
about its graph depends on the changes up to the last time that it was built, and on none after that
(`graph_after_run`).

Two changes touch the graph, building it and clearing the store. All others leave it as it is
(`graph_apply`), so in a run only the last of these two counts.
-/

namespace ArchFacts.Store

variable {s : Store} {change : Change} {changes : List Change}

/-! ### One change -/

theorem graph_pushAll (s : Store) (facts : List Fact) : (s.pushAll facts).graph = s.graph := by
  induction facts generalizing s with
  | nil => rfl
  | cons f rest ih => exact ih (s.push f)

theorem graph_changeFrom (s : Store) (start : Nat) (change : Fact → Fact) :
    (s.changeFrom start change).1.graph = s.graph := by
  unfold changeFrom
  split <;> rfl

theorem graph_tagUntagged (s : Store) (repo path : String) :
    (s.tagUntagged repo path).1.graph = s.graph := by
  unfold tagUntagged
  split <;> rfl

/-- What is read comes in after the facts that are there, and nothing comes in if reading fails. -/
theorem graph_readOr_map (s : Store) (source : Except Failure (List Fact)) :
    (s.readOr (source.map s.add)).graph = s.graph := by
  cases source with
  | error failure => rfl
  | ok facts => exact graph_pushAll s facts

/-- **The graph is left alone** by every change but building it and clearing the store. -/
theorem graph_apply (hbuild : change ≠ .rebuildGraph) (hclear : change ≠ .clear) :
    (s.apply change).graph = s.graph := by
  cases change with
  | add facts => exact graph_pushAll s facts
  | readRecords bytes =>
    rw [apply, readRecords_eq_map]
    exact graph_readOr_map s _
  | load tree path => exact graph_readOr_map s (factsIn tree path)
  | tagRange start repo path => exact graph_changeFrom s start _
  | tagUntagged repo path => exact graph_tagUntagged s repo path
  | setRepoRange start repo => exact graph_changeFrom s start _
  | rebuildGraph => exact absurd rfl hbuild
  | clear => exact absurd rfl hclear

/-- A graph that was built is there until the store is cleared. -/
theorem graph_apply_ne_none (hclear : change ≠ .clear) (h : s.graph ≠ none) :
    (s.apply change).graph ≠ none := by
  by_cases hbuild : change = .rebuildGraph
  · subst hbuild
    exact Option.some_ne_none _
  · rwa [graph_apply hbuild hclear]

/-! ### A run of changes -/

theorem run_append (s : Store) (before after : List Change) :
    s.run (before ++ after) = (s.run before).run after :=
  List.foldl_append

theorem graph_run (hbuild : Change.rebuildGraph ∉ changes) (hclear : Change.clear ∉ changes) :
    (s.run changes).graph = s.graph := by
  induction changes generalizing s with
  | nil => rfl
  | cons change rest ih =>
    rw [List.mem_cons, not_or] at hbuild hclear
    calc (s.run (change :: rest)).graph
        = (s.apply change).graph := ih hbuild.2 hclear.2
      _ = s.graph := graph_apply (Ne.symm hbuild.1) (Ne.symm hclear.1)

theorem graph_run_ne_none (hclear : Change.clear ∉ changes) (h : s.graph ≠ none) :
    (s.run changes).graph ≠ none := by
  induction changes generalizing s with
  | nil => exact h
  | cons change rest ih =>
    rw [List.mem_cons, not_or] at hclear
    exact ih hclear.2 (graph_apply_ne_none (Ne.symm hclear.1) h)

/-- There is no graph if the store was cleared each time after the graph was built. -/
theorem graph_run_eq_none
    (h : ∀ before after, changes = before ++ .rebuildGraph :: after → .clear ∈ after) :
    (empty.run changes).graph = none := by
  -- the last change decides, so the induction goes from the end
  induction changes using List.reverseRecOn with
  | nil => rfl
  | append_singleton earlier change ih =>
    rw [run_append]
    change ((empty.run earlier).apply change).graph = none
    by_cases hclear : change = .clear
    · subst hclear
      rfl
    · have hbuild : change ≠ .rebuildGraph := by
        rintro rfl
        exact List.not_mem_nil (h earlier [] rfl)
      rw [graph_apply hbuild hclear]
      refine ih fun before after hsplit => ?_
      have hmem : Change.clear ∈ after ++ [change] := h before (after ++ [change]) (by simp [hsplit])
      rcases List.mem_append.mp hmem with hmem | hmem
      · exact hmem
      · exact absurd (List.mem_singleton.mp hmem).symm hclear

/-- **The graph of a store is the one that was last built**, whatever has happened to the store
since it was empty. There is none exactly if it was cleared each time after the graph was built;
otherwise it is the graph of the facts as they were the last time. No change after that shows in
it, be it that facts are added, read or relabelled, and a change that fails to read its input leaves
the whole store as it is. -/
theorem graph_after_run (changes : List Change) :
    let s := empty.run changes
    (s.graph = none ↔
      ∀ before after, changes = before ++ .rebuildGraph :: after → .clear ∈ after) ∧
    (∀ before after, changes = before ++ .rebuildGraph :: after →
      .rebuildGraph ∉ after → .clear ∉ after →
      s.graph = some (.build (empty.run before).facts)) ∧
    (∀ change, change ≠ .rebuildGraph → change ≠ .clear → (s.apply change).graph = s.graph) ∧
    (∀ bytes failure, s.readRecords bytes = .error failure → s.apply (.readRecords bytes) = s) ∧
    ∀ tree path failure, s.load tree path = .error failure → s.apply (.load tree path) = s := by
  refine ⟨⟨?_, graph_run_eq_none⟩, ?_, fun _ => graph_apply, ?_, ?_⟩
  · intro hnone before after hsplit
    by_contra hclear
    rw [hsplit, run_append] at hnone
    exact graph_run_ne_none (s := (empty.run before).apply .rebuildGraph) hclear
      (Option.some_ne_none _) hnone
  · intro before after hsplit hbuild hclear
    rw [hsplit, run_append]
    exact graph_run (s := (empty.run before).apply .rebuildGraph) hbuild hclear
  · intro bytes failure hread
    rw [apply, hread]
    rfl
  · intro tree path failure hload
    rw [apply, hload]
    rfl

/-- A graph is built, dropped and built again of one fact. Then the fact is relabelled, another one
comes in, and a line is refused. -/
def rebuilt : List Change :=
  [.add [Fact.of .symbol "old"], .rebuildGraph, .clear,
    .add [((Fact.of .symbol "a").withFile "x.rs" 1).withRelation .calls "b"], .rebuildGraph,
    .tagUntagged "one" "one/", .add [Fact.of .symbol "b"], .readRecords [0xFF]]

theorem graph_after_run_rebuilt :
    rebuilt = rebuilt.take 4 ++ .rebuildGraph :: rebuilt.drop 5 ∧
      Change.rebuildGraph ∉ rebuilt.drop 5 ∧ Change.clear ∉ rebuilt.drop 5 ∧
      (empty.run rebuilt).facts.map (·.file) = ["one/x.rs", ""] ∧
      (empty.run rebuilt).graph = some (.build (empty.run (rebuilt.take 4)).facts) ∧
      (empty.run (rebuilt.take 4)).facts.map (·.file) = ["x.rs"] := by
  have hbuild : Change.rebuildGraph ∉ rebuilt.drop 5 := by simp [rebuilt]
  have hclear : Change.clear ∉ rebuilt.drop 5 := by simp [rebuilt]
  refine ⟨rfl, hbuild, hclear, by decide, ?_, by decide⟩
  exact (graph_after_run rebuilt).2.1 _ _ rfl hbuild hclear

end ArchFacts.Store
