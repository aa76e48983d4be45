import ArchFacts.CommandLine.Run
import ArchFacts.Proofs.Config.RoundTrip
import ArchFacts.Proofs.Config.Settings
import ArchFacts.Proofs.Graph.Impact

/-!
# Searches

A command that searches the graph reports what the search does under the ceilings that are asked
for: by its flags, else by the keys of the configuration, else by no one (`run_search`). A key that
is not set, at whatever level, is as good as one that is set to 0 or to what the search chooses
itself.
-/

namespace ArchFacts

open Directory

/-! ### What a search depends on -/

section

variable {g : Graph} {o o' : TraversalOptions}

/-- The same is asked, under the same ceilings. -/
structure TraversalOptions.Same (o o' : TraversalOptions) : Prop where
  direction : o.direction = o'.direction
  relationKinds : o.relationKinds = o'.relationKinds
  nodeKinds : o.nodeKinds = o'.nodeKinds
  depth : o.depthCeiling = o'.depthCeiling
  nodes : o.nodeCeiling = o'.nodeCeiling

theorem Graph.Walk.find_same (h : o.Same o') (depth : Nat) (w : Walk) (name : String) :
    find g o depth w name = find g o' depth w name := by
  have hreports (info : NodeInfo) : o.reports info = o'.reports info := by
    rw [TraversalOptions.reports, TraversalOptions.reports, h.nodeKinds]
  simp only [find, hreports, h.nodes]

theorem Graph.Walk.nextLevel_same (h : o.Same o') (depth : Nat) (w : Walk) :
    w.nextLevel g o depth = w.nextLevel g o' depth := by
  have hfind : find g o depth = find g o' depth := funext₂ (find_same h depth)
  simp only [nextLevel, hfind, h.direction, h.relationKinds]

theorem Graph.Walk.levels_same (h : o.Same o') (left depth : Nat) (w : Walk) :
    levels g o left depth w = levels g o' left depth w := by
  induction left generalizing depth w with
  | zero => rfl
  | succ left ih => rw [levels, levels, nextLevel_same h, ih]

/-- A traversal depends on its ceilings, not on how they are asked for. -/
theorem Graph.traverse_same (h : o.Same o') (start : String) :
    g.traverse start o = g.traverse start o' := by
  simp only [traverse, h.depth, h.direction, Walk.levels_same h]

theorem Graph.impact_same {o o' : ImpactOptions} (hdepth : o.depthCeiling = o'.depthCeiling)
    (hnodes : o.nodeCeiling = o'.nodeCeiling) (hforward : o.includeForward = o'.includeForward)
    (target : String) : g.impact target o = g.impact target o' := by
  have htraversal : o.traversal = o'.traversal := by
    funext direction
    rw [ImpactOptions.traversal, ImpactOptions.traversal, hdepth, hnodes]
  simp only [impact, htraversal, hforward]

end

namespace CommandLine

open Json (Value)

/-! ### Searches -/

/-- The ceiling that a search chooses itself, and the greatest one that it grants. -/
structure Bounds where
  default : Nat
  greatest : Nat
  default_le : default ≤ greatest
  default_lt : default < UInt64.size

/-- The ceiling that is granted: 0 leaves it to the search. -/
def Bounds.grant (b : Bounds) (asked : Nat) : Nat :=
  if asked = 0 then b.default else min asked b.greatest

/-- A command that searches the graph. -/
inductive Search where
  | traverse (c : TraverseCommand)
  | path (c : PathCommand)
  | impact (c : ImpactCommand)
  deriving DecidableEq, Repr

namespace Search

/-- The search as a command. -/
def command : Search → Command
  | traverse c => .traverse c
  | path c => .path c
  | impact c => .impact c

/-- The depth that a flag asks for. -/
def depthFlag : Search → Option Nat
  | traverse c => c.maxDepth
  | path c => c.maxDepth
  | impact c => c.maxDepth

/-- The number of nodes that a flag asks for. A search for a path has no such flag. -/
def nodesFlag : Search → Option Nat
  | traverse c => c.maxNodes
  | path _ => none
  | impact c => c.maxNodes

/-- The ceilings that the configuration sets for a search. -/
def keys (s : Settings) : Search → CeilingSettings
  | traverse _ => (s.limits.bind (·.traverse)).getD {}
  | path _ => (s.limits.bind (·.path)).getD {}
  | impact _ => (s.limits.bind (·.impact)).getD {}

/-- The bounds of the depth. -/
def depthBounds : Search → Bounds
  | traverse _ => ⟨5, 20, by decide, by decide⟩
  | path _ => ⟨10, 20, by decide, by decide⟩
  | impact _ => ⟨3, 10, by decide, by decide⟩

/-- The bounds of the number of nodes. A search for a path does not count them. -/
def nodesBounds : Search → Bounds
  | traverse _ => ⟨100, 500, by decide, by decide⟩
  | path _ => ⟨0, 0, by decide, by decide⟩
  | impact _ => ⟨200, 500, by decide, by decide⟩

/-- What a search finds in a graph under the ceilings that are asked for. -/
def call (g : Graph) (depth nodes : Nat) : Search → Value
  | traverse c => (g.traverse c.start
      { direction := c.direction, relationKinds := c.relationKinds, nodeKinds := c.nodeKinds
        maxDepth := depth, maxNodes := nodes }).value
  | path c => (g.findPath c.source c.goal c.relationKinds depth).value
  | impact c => (g.impact c.target
      { maxDepth := depth, maxNodes := nodes, includeForward := c.includeForward }).value

/-- The ceilings that a configuration has for a search. -/
def ceilings (c : Config) : Search → Ceilings
  | traverse _ => c.limits.traverse
  | path _ => c.limits.path
  | impact _ => c.limits.impact

variable {g : Graph} {q : Search} {depth depth' nodes nodes' : Nat}

/-- A search depends on the ceilings that are granted. -/
theorem call_congr (hdepth : q.depthBounds.grant depth = q.depthBounds.grant depth')
    (hnodes : q.nodesBounds.grant nodes = q.nodesBounds.grant nodes') :
    q.call g depth nodes = q.call g depth' nodes' := by
  cases q with
  | traverse c =>
    refine congrArg Traversal.value (?_ : g.traverse c.start _ = g.traverse c.start _)
    refine Graph.traverse_same ?_ c.start
    exact ⟨rfl, rfl, rfl, hdepth, hnodes⟩
  | path c =>
    have hdepth : ceiling depth Graph.defaultPathDepth Graph.greatestPathDepth =
      ceiling depth' Graph.defaultPathDepth Graph.greatestPathDepth := hdepth
    simp only [call, Graph.findPath, hdepth]
  | impact c =>
    refine congrArg Impact.value (?_ : g.impact c.target _ = g.impact c.target _)
    refine Graph.impact_same ?_ ?_ ?_ c.target
    · exact hdepth
    · exact hnodes
    · rfl

/-- What a configuration has for a search is what its keys set, or what the search chooses itself.
-/
theorem ceilings_config (q : Search) (s : Settings) :
    q.ceilings s.config = (q.keys s).ceilings ∨
      q.keys s = {} ∧
        q.ceilings s.config = ⟨.ofNat q.depthBounds.default, .ofNat q.nodesBounds.default⟩ := by
  obtain ⟨dataFile, limits⟩ := s
  cases limits with
  | none => cases q <;> exact Or.inr ⟨rfl, rfl⟩
  | some l =>
    obtain ⟨traverse, path, impact⟩ := l
    refine Or.inl ?_
    cases q with
    | traverse c => cases traverse <;> rfl
    | path c => cases path <;> rfl
    | impact c => cases impact <;> rfl

end Search

/-! ### Ceilings -/

/-- The ceiling that is asked for: by a flag, else by a key, else by no one. -/
def asked (flag : Option Nat) (key : Option UInt64) : Nat :=
  (flag.or (key.map UInt64.toNat)).getD 0

theorem getD_eq_asked (flag : Option Nat) (key : Option UInt64) :
    flag.getD (key.getD 0).toNat = asked flag key := by
  cases flag with
  | some n => rfl
  | none => cases key <;> rfl

/-- A key leaves a ceiling to the search: it is not set, or set to 0 or to what the search chooses
itself. -/
def LeavesOpen (b : Bounds) (key : Option UInt64) : Prop :=
  key = none ∨ key = some 0 ∨ key = some (.ofNat b.default)

/-- Two keys set the same ceiling, or leave it to the search. -/
def SameKey (b : Bounds) (key key' : Option UInt64) : Prop :=
  key = key' ∨ LeavesOpen b key ∧ LeavesOpen b key'

namespace Bounds

variable {b : Bounds} {key key' : Option UInt64}

theorem toNat_default (b : Bounds) : (UInt64.ofNat b.default).toNat = b.default :=
  UInt64.toNat_ofNat_of_lt b.default_lt

theorem grant_default (b : Bounds) : b.grant b.default = b.default := by
  have hle := b.default_le
  unfold grant
  split <;> omega

/-- What is granted is granted again. -/
theorem grant_grant (b : Bounds) (asked : Nat) : b.grant (b.grant asked) = b.grant asked := by
  have hle := b.default_le
  unfold grant
  split <;> split <;> omega

theorem grant_leavesOpen (h : LeavesOpen b key) (flag : Option Nat) :
    b.grant (asked flag key) = b.grant (asked flag none) := by
  cases flag with
  | some n => rfl
  | none =>
    rcases h with rfl | rfl | rfl
    · rfl
    · rfl
    · exact (congrArg b.grant b.toNat_default).trans b.grant_default

theorem grant_getD_default (b : Bounds) (flag : Option Nat) :
    b.grant (flag.getD (UInt64.ofNat b.default).toNat) = b.grant (asked flag none) := by
  have hopen : LeavesOpen b (some (.ofNat b.default)) := Or.inr (Or.inr rfl)
  rw [← grant_leavesOpen hopen, ← getD_eq_asked]
  rfl

theorem grant_sameKey (h : SameKey b key key') (flag : Option Nat) :
    b.grant (asked flag key) = b.grant (asked flag key') := by
  rcases h with rfl | ⟨h, h'⟩
  · rfl
  · rw [grant_leavesOpen h, grant_leavesOpen h']

end Bounds

/-! ### Runs -/

/-- The file of facts of a command: the one that it names, else the one that the configuration sets,
else the standard one. -/
def dataOf (i : Invocation) (s : Settings) : String :=
  i.data.getD (s.dataFile.getD Config.standard.dataFile)

/-- The store of the facts of a command. -/
def opened (i : Invocation) (s : Settings) (tree : Tree) : Except RunError Store :=
  (Store.openFile tree (dataOf i s)).mapError (.during "Failed to load facts from" (dataOf i s))

variable {q : Search} {i : Invocation} {tree : Tree} {s : Settings}

theorem run_of_setIn (hcommand : i.command = q.command)
    (hset : Config.SetIn tree (i.config.getD Config.standardPath) s) :
    run i tree = ((opened i s tree).map fun store => q.call (Graph.build store.facts)
      (q.depthFlag.getD (q.ceilings s.config).maxDepth.toNat)
      (q.nodesFlag.getD (q.ceilings s.config).maxNodes.toNat), tree) := by
  have hload : Context.load tree i = .ok ⟨s.config, dataOf i s⟩ := by
    rw [Context.load, Config.loadOrStandard_eq_ok_iff.mpr ⟨s, hset, rfl⟩]
    rfl
  rw [run, hload, hcommand]
  cases q <;> rfl

/-- What a configuration has for a ceiling is granted as the key asks for it. -/
theorem call_ceilings (g : Graph) (q : Search) (s : Settings) :
    q.call g (q.depthFlag.getD (q.ceilings s.config).maxDepth.toNat)
        (q.nodesFlag.getD (q.ceilings s.config).maxNodes.toNat) =
      q.call g (asked q.depthFlag (q.keys s).maxDepth) (asked q.nodesFlag (q.keys s).maxNodes) := by
  rcases q.ceilings_config s with hkeys | ⟨hnone, hdefault⟩
  · rw [hkeys]
    exact congrArg₂ (fun depth nodes => q.call g depth nodes) (getD_eq_asked ..) (getD_eq_asked ..)
  · -- there are no limits: what the search chooses itself is as good as nothing
    rw [hdefault, hnone]
    exact Search.call_congr (Bounds.grant_getD_default ..) (Bounds.grant_getD_default ..)

/-- **A search goes by its flags, else by the keys that are set.** The ceiling that is asked for is
the flag's, else the key's, else 0; 0 leaves it to the search, and what is too great is cut down. So
another configuration makes no difference if it sets the same, or leaves to the search what this one
leaves to it. -/
theorem run_search (q : Search) (i : Invocation) (tree : Tree) (s : Settings)
    (hcommand : i.command = q.command)
    (hset : Config.SetIn tree (i.config.getD Config.standardPath) s) :
    run i tree = ((opened i s tree).map fun store => q.call (Graph.build store.facts)
        (asked q.depthFlag (q.keys s).maxDepth) (asked q.nodesFlag (q.keys s).maxNodes), tree) ∧
      (∀ g depth nodes, q.call g depth nodes =
        q.call g (q.depthBounds.grant depth) (q.nodesBounds.grant nodes)) ∧
      ∀ tree' s', Config.SetIn tree' (i.config.getD Config.standardPath) s' →
        opened i s' tree' = opened i s tree →
        SameKey q.depthBounds (q.keys s').maxDepth (q.keys s).maxDepth →
        SameKey q.nodesBounds (q.keys s').maxNodes (q.keys s).maxNodes →
        (run i tree').1 = (run i tree).1 := by
  have hrun {tree : Tree} {s : Settings}
      (hset : Config.SetIn tree (i.config.getD Config.standardPath) s) :
      run i tree = ((opened i s tree).map fun store => q.call (Graph.build store.facts)
        (asked q.depthFlag (q.keys s).maxDepth) (asked q.nodesFlag (q.keys s).maxNodes), tree) := by
    simp only [run_of_setIn hcommand hset, call_ceilings]
  refine ⟨hrun hset, fun g depth nodes => ?_, fun tree' s' hset' hopened hdepth hnodes => ?_⟩
  · exact Search.call_congr (Bounds.grant_grant ..).symm (Bounds.grant_grant ..).symm
  · rw [hrun hset, hrun hset', hopened]
    have hcall (g : Graph) : q.call g (asked q.depthFlag (q.keys s').maxDepth)
          (asked q.nodesFlag (q.keys s').maxNodes) =
        q.call g (asked q.depthFlag (q.keys s).maxDepth) (asked q.nodesFlag (q.keys s).maxNodes) :=
      Search.call_congr (Bounds.grant_sameKey hdepth _) (Bounds.grant_sameKey hnodes _)
    simp only [hcall]

/-- A document that sets one depth, to what the search chooses itself. -/
def depthFive : List Char := "limits:\n  traverse:\n    max_depth: 5\n".toList

/-- The entries of this document. -/
def depthFiveEntries : List (Yaml.Node × Yaml.Node) :=
  [entryOf "limits" (.mapping {}
    [entryOf "traverse" (.mapping {} [entryOf "max_depth" (numberNode 5)])])]

theorem lays_depthFive : Lays 0 depthFive depthFiveEntries := by
  have hlimits : Yaml.Layout.IsKey "limits".toList := by decide
  have htraverse : Yaml.Layout.IsKey "traverse".toList := by decide
  have hmaxDepth : Yaml.Layout.IsKey "max_depth".toList := by decide
  have hdepth : Lays 4 "    max_depth: 5\n".toList [entryOf "max_depth" (numberNode 5)] :=
    lays_number hmaxDepth 5 lays_nil
  have hsection : Lays 2 "  traverse:\n    max_depth: 5\n".toList
      [entryOf "traverse" (.mapping {} [entryOf "max_depth" (numberNode 5)])] :=
    lays_mapping htraverse (by decide) (List.cons_ne_nil _ _) hdepth lays_nil
  exact lays_mapping hlimits (by decide) (List.cons_ne_nil _ _) hsection lays_nil

/-- What this document sets. -/
def depthFiveSettings : Settings := { limits := some { traverse := some { maxDepth := some 5 } } }

theorem stated_depthFive : depthFiveSettings.StatedBy (.mapping {} depthFiveEntries) := by
  have hkeys (key : String) (value : Yaml.Node) : ∀ e ∈ [entryOf key value], ∃ key,
      Setting.textOf? (.mapping {} depthFiveEntries) e.1 = some key :=
    List.forall_mem_singleton.mpr ⟨key, rfl⟩
  exact ⟨depthFiveEntries, .mapping rfl (hkeys _ _), rfl, _, rfl, _, .mapping rfl (hkeys _ _),
    ⟨_, rfl, _, .mapping rfl (hkeys _ _), ⟨_, rfl, Ceilings.decodeOne_numberNode 5⟩, rfl⟩, rfl, rfl⟩

/-- The document in `c`, and some facts in `d`. -/
def depthFiveTree : Tree :=
  ⟨[], [(["c"], .file (Text.Utf8.encode depthFive)),
    (["d"], .file (Records.writeBytes Fact.write Graph.tiers))]⟩

/-- The facts alone. -/
def unsetTree : Tree := ⟨[], [(["d"], .file (Records.writeBytes Fact.write Graph.tiers))]⟩

/-- A traversal that has no flag for a ceiling. -/
def unflagged : TraverseCommand := ⟨"users", .reverse, [], [], none, none⟩

/-- The command line of this traversal. -/
def unflaggedLine : Invocation := ⟨some "c", some "d", .traverse unflagged⟩

/-- Whether the depth is set to what the search chooses itself, or there is no configuration, the
same is reported. -/
theorem run_search_depthFive :
    Config.SetIn depthFiveTree "c" depthFiveSettings ∧ Config.SetIn unsetTree "c" {} ∧
      (run unflaggedLine depthFiveTree).1 = (run unflaggedLine unsetTree).1 := by
  have hset : Config.SetIn depthFiveTree "c" depthFiveSettings := by
    obtain ⟨tokens, hlaid⟩ := lays_depthFive
    have hread : depthFiveTree.readBytes "c" = .ok (Text.Utf8.encode depthFive) := rfl
    have htext : depthFiveTree.readText "c" = .ok depthFive := by
      rw [Tree.readText, hread]
      dsimp only
      rw [Text.Utf8.decode_encode]
    exact .present htext (Yaml.ofText?_of_laid hlaid (List.cons_ne_nil _ _)) stated_depthFive
  have hunset : Config.SetIn unsetTree "c" {} := .absent rfl
  have hread : depthFiveTree.readBytes "d" = unsetTree.readBytes "d" := rfl
  have hopened : opened unflaggedLine depthFiveSettings depthFiveTree =
      opened unflaggedLine {} unsetTree := by
    simp only [opened, dataOf, unflaggedLine, Option.getD_some, Store.openFile, Store.factsIn,
      hread]
  have hdepth : SameKey ⟨5, 20, by decide, by decide⟩ (some 5) none :=
    Or.inr ⟨Or.inr (Or.inr rfl), Or.inl rfl⟩
  obtain ⟨-, -, hsame⟩ := run_search (.traverse unflagged) unflaggedLine unsetTree {} rfl hunset
  exact ⟨hset, hunset, hsame depthFiveTree depthFiveSettings hset hopened hdepth (Or.inl rfl)⟩

end CommandLine

end ArchFacts
