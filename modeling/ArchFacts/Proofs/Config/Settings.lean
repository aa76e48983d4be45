import ArchFacts.Config.File
import ArchFacts.Proofs.Config.Decoding
import ArchFacts.Proofs.Directory.Walking

/-!
# What a document sets

A document sets some of the keys of a configuration (`Settings.StatedBy`), and what it leaves out is
filled in: a ceiling with 0, the limits as a whole and the data file as in the standard
configuration (`Config.decode_eq_some_iff`). So a configuration is loaded from a file that sets some
keys, or where there is no file and no key is set (`Config.loadOrStandard_eq_ok_iff`).
-/

namespace ArchFacts

open Yaml Directory

/-! ### Settings -/

/-- The ceilings of a search that are set. -/
structure CeilingSettings where
  maxDepth : Option UInt64 := none
  maxNodes : Option UInt64 := none
  deriving DecidableEq, Repr

/-- The limits that are set. -/
structure LimitSettings where
  traverse : Option CeilingSettings := none
  path : Option CeilingSettings := none
  impact : Option CeilingSettings := none
  deriving DecidableEq, Repr

/-- What of a configuration is set. -/
structure Settings where
  dataFile : Option String := none
  limits : Option LimitSettings := none
  deriving DecidableEq, Repr

/-- The ceilings, those that are not set being 0. -/
def CeilingSettings.ceilings (s : CeilingSettings) : Ceilings :=
  ⟨s.maxDepth.getD 0, s.maxNodes.getD 0⟩

/-- The limits, those that are not set being 0. -/
def LimitSettings.limits (s : LimitSettings) : Limits :=
  ⟨(s.traverse.map CeilingSettings.ceilings).getD {}, (s.path.map CeilingSettings.ceilings).getD {},
    (s.impact.map CeilingSettings.ceilings).getD {}⟩

/-- The configuration, which is the standard one in what is not set. -/
def Settings.config (s : Settings) : Config :=
  ⟨s.dataFile.getD Config.standard.dataFile,
    (s.limits.map LimitSettings.limits).getD Config.standard.limits⟩

/-! ### Documents -/

/-- A node of a document sets ceilings. -/
def CeilingSettings.StatedBy (document node : Node) (s : CeilingSettings) : Prop :=
  ∃ entries, Setting.HoldsEntries document node entries ∧
    Sets document entries "max_depth" (Ceilings.decodeOne document · = some ·) s.maxDepth ∧
    Sets document entries "max_nodes" (Ceilings.decodeOne document · = some ·) s.maxNodes

/-- A node of a document sets limits. -/
def LimitSettings.StatedBy (document node : Node) (s : LimitSettings) : Prop :=
  ∃ entries, Setting.HoldsEntries document node entries ∧
    Sets document entries "traverse" (CeilingSettings.StatedBy document) s.traverse ∧
    Sets document entries "path" (CeilingSettings.StatedBy document) s.path ∧
    Sets document entries "impact" (CeilingSettings.StatedBy document) s.impact

/-- A document sets what of a configuration is set. -/
def Settings.StatedBy (document : Node) (s : Settings) : Prop :=
  ∃ entries, Setting.HoldsEntries document document entries ∧
    Sets document entries "data_file" (Setting.textOf? document · = some ·) s.dataFile ∧
    Sets document entries "limits" (LimitSettings.StatedBy document) s.limits

variable {document node : Node}

/-! ### Ceilings -/

namespace Ceilings

/-- The parts of the ceilings of a search. -/
def parts (document : Node) : List (Part Ceilings) :=
  [⟨"max_depth", UInt64, decodeOne document, maxDepth, fun maxDepth c => { c with maxDepth },
      fun _ _ => rfl⟩,
    ⟨"max_nodes", UInt64, decodeOne document, maxNodes, fun maxNodes c => { c with maxNodes },
      fun _ _ => rfl⟩]

theorem independent_parts (document : Node) : Part.Independent (parts document) where
  apart := List.pairwise_pair.mpr ⟨by simp, fun _ _ => rfl, fun _ _ => rfl⟩
  ext a b h := by
    simp only [parts, List.forall_mem_cons] at h
    exact mk.injEq .. ▸ ⟨h.1, h.2.1⟩

/-- **Ceilings are decoded from a node that sets some of them.** -/
theorem decode_eq_some_iff {c : Ceilings} : decode document node = some c ↔
    ∃ s : CeilingSettings, s.StatedBy document node ∧ c = s.ceilings := by
  have hone (node : Node) (n : UInt64) : decodeOne document node = some n ↔
      ∃ b, decodeOne document node = some b ∧ n = id b := by simp
  refine (Setting.decode_eq_some_iff (independent_parts document)).trans ?_
  constructor
  · rintro ⟨entries, hentries, hparts⟩
    simp only [parts, List.forall_mem_cons] at hparts
    obtain ⟨hdepth, hnodes, -⟩ := hparts
    obtain ⟨maxDepth, hdepth, hc⟩ := (Part.taken_iff id hone).mp hdepth
    obtain ⟨maxNodes, hnodes, hc'⟩ := (Part.taken_iff id hone).mp hnodes
    rw [Option.map_id] at hc hc'
    exact ⟨⟨maxDepth, maxNodes⟩, ⟨entries, hentries, hdepth, hnodes⟩, congrArg₂ mk hc hc'⟩
  · rintro ⟨s, ⟨entries, hentries, hdepth, hnodes⟩, rfl⟩
    refine ⟨entries, hentries, List.forall_mem_cons.mpr ⟨?_, List.forall_mem_singleton.mpr ?_⟩⟩
    · refine (Part.taken_iff id hone).mpr ⟨s.maxDepth, hdepth, ?_⟩
      rw [Option.map_id]
      rfl
    · refine (Part.taken_iff id hone).mpr ⟨s.maxNodes, hnodes, ?_⟩
      rw [Option.map_id]
      rfl

end Ceilings

/-! ### Limits -/

namespace Limits

/-- The parts of the limits. -/
def parts (document : Node) : List (Part Limits) :=
  [⟨"traverse", Ceilings, Ceilings.decode document, traverse, fun traverse l => { l with traverse },
      fun _ _ => rfl⟩,
    ⟨"path", Ceilings, Ceilings.decode document, path, fun path l => { l with path },
      fun _ _ => rfl⟩,
    ⟨"impact", Ceilings, Ceilings.decode document, impact, fun impact l => { l with impact },
      fun _ _ => rfl⟩]

theorem independent_parts (document : Node) : Part.Independent (parts document) where
  apart := by
    refine .cons (List.forall_mem_cons.mpr ⟨?_, List.forall_mem_singleton.mpr ?_⟩)
      (List.pairwise_pair.mpr ?_)
    all_goals exact ⟨by simp, fun _ _ => rfl, fun _ _ => rfl⟩
  ext a b h := by
    simp only [parts, List.forall_mem_cons] at h
    exact mk.injEq .. ▸ ⟨h.1, h.2.1, h.2.2.1⟩

/-- **Limits are decoded from a node that sets some of them.** -/
theorem decode_eq_some_iff {l : Limits} : decode document node = some l ↔
    ∃ s : LimitSettings, s.StatedBy document node ∧ l = s.limits := by
  have hone (node : Node) (c : Ceilings) : Ceilings.decode document node = some c ↔
      ∃ s, CeilingSettings.StatedBy document node s ∧ c = s.ceilings := Ceilings.decode_eq_some_iff
  refine (Setting.decode_eq_some_iff (independent_parts document)).trans ?_
  constructor
  · rintro ⟨entries, hentries, hparts⟩
    simp only [parts, List.forall_mem_cons] at hparts
    obtain ⟨htraverse, hpath, himpact, -⟩ := hparts
    obtain ⟨traverse, htraverse, hl⟩ := (Part.taken_iff CeilingSettings.ceilings hone).mp htraverse
    obtain ⟨path, hpath, hl'⟩ := (Part.taken_iff CeilingSettings.ceilings hone).mp hpath
    obtain ⟨impact, himpact, hl''⟩ := (Part.taken_iff CeilingSettings.ceilings hone).mp himpact
    refine ⟨⟨traverse, path, impact⟩, ⟨entries, hentries, htraverse, hpath, himpact⟩, ?_⟩
    exact mk.injEq .. ▸ ⟨hl, hl', hl''⟩
  · rintro ⟨s, ⟨entries, hentries, htraverse, hpath, himpact⟩, rfl⟩
    refine ⟨entries, hentries, List.forall_mem_cons.mpr ⟨?_, List.forall_mem_cons.mpr
      ⟨?_, List.forall_mem_singleton.mpr ?_⟩⟩⟩
    · exact (Part.taken_iff CeilingSettings.ceilings hone).mpr ⟨s.traverse, htraverse, rfl⟩
    · exact (Part.taken_iff CeilingSettings.ceilings hone).mpr ⟨s.path, hpath, rfl⟩
    · exact (Part.taken_iff CeilingSettings.ceilings hone).mpr ⟨s.impact, himpact, rfl⟩

end Limits

/-! ### Configurations -/

namespace Config

/-- The parts of a configuration. -/
def parts (document : Node) : List (Part Config) :=
  [⟨"data_file", String, Setting.textOf? document, dataFile, fun dataFile c => { c with dataFile },
      fun _ _ => rfl⟩,
    ⟨"limits", Limits, Limits.decode document, limits, fun limits c => { c with limits },
      fun _ _ => rfl⟩]

theorem independent_parts (document : Node) : Part.Independent (parts document) where
  apart := List.pairwise_pair.mpr ⟨by simp, fun _ _ => rfl, fun _ _ => rfl⟩
  ext a b h := by
    simp only [parts, List.forall_mem_cons] at h
    exact mk.injEq .. ▸ ⟨h.1, h.2.1⟩

/-- **A configuration is decoded from a document that sets some of its keys.** -/
theorem decode_eq_some_iff {c : Config} : decode document = some c ↔
    ∃ s : Settings, s.StatedBy document ∧ c = s.config := by
  have htext (node : Node) (text : String) : Setting.textOf? document node = some text ↔
      ∃ b, Setting.textOf? document node = some b ∧ text = id b := by simp
  have hlimits (node : Node) (l : Limits) : Limits.decode document node = some l ↔
      ∃ s, LimitSettings.StatedBy document node s ∧ l = s.limits := Limits.decode_eq_some_iff
  refine (Setting.decode_eq_some_iff (independent_parts document)).trans ?_
  constructor
  · rintro ⟨entries, hentries, hparts⟩
    simp only [parts, List.forall_mem_cons] at hparts
    obtain ⟨hfile, hlimit, -⟩ := hparts
    obtain ⟨dataFile, hfile, hc⟩ := (Part.taken_iff id htext).mp hfile
    obtain ⟨limits, hlimit, hc'⟩ := (Part.taken_iff LimitSettings.limits hlimits).mp hlimit
    rw [Option.map_id] at hc
    exact ⟨⟨dataFile, limits⟩, ⟨entries, hentries, hfile, hlimit⟩, congrArg₂ mk hc hc'⟩
  · rintro ⟨s, ⟨entries, hentries, hfile, hlimit⟩, rfl⟩
    refine ⟨entries, hentries, List.forall_mem_cons.mpr ⟨?_, List.forall_mem_singleton.mpr ?_⟩⟩
    · refine (Part.taken_iff id htext).mpr ⟨s.dataFile, hfile, ?_⟩
      rw [Option.map_id]
      rfl
    · exact (Part.taken_iff LimitSettings.limits hlimits).mpr ⟨s.limits, hlimit, rfl⟩

/-! ### Files -/

variable {tree : Tree} {path : String} {c : Config}

/-- Some keys of the configuration are set in a file, or there is no file and no key is set. -/
inductive SetIn (tree : Tree) (path : String) : Settings → Prop
  | absent (h : tree.exists? path = .ok false) : SetIn tree path {}
  | present {text : List Char} {document : Node} {s : Settings}
      (htext : tree.readText path = .ok text) (hdocument : Node.ofText? text = some document)
      (h : s.StatedBy document) : SetIn tree path s

theorem exists?_of_readText {text : List Char} (h : tree.readText path = .ok text) :
    tree.exists? path = .ok true := by
  rw [Tree.readText] at h
  split at h
  case h_1 bytes hbytes => exact Tree.exists?_of_readBytes hbytes
  case h_2 => cases h

theorem load_eq_ok_iff : load tree path = .ok c ↔ ∃ text document, tree.readText path = .ok text ∧
    Node.ofText? text = some document ∧ ∃ s : Settings, s.StatedBy document ∧ c = s.config := by
  rw [load]
  constructor
  · intro h
    split at h
    case h_1 => cases h
    case h_2 text htext =>
      split at h
      case h_1 config hread =>
        obtain rfl := Except.ok.inj h
        obtain ⟨document, hdocument, hdecode⟩ := Option.bind_eq_some_iff.mp hread
        exact ⟨text, document, htext, hdocument, decode_eq_some_iff.mp hdecode⟩
      case h_2 => cases h
  · rintro ⟨text, document, htext, hdocument, hs⟩
    have hread : read text = some c := by
      rw [read, hdocument]
      exact decode_eq_some_iff.mpr hs
    rw [htext]
    simp only [hread]

/-- **A configuration is loaded from a file that sets some of its keys**, or without a file. -/
theorem loadOrStandard_eq_ok_iff : loadOrStandard tree path = .ok c ↔
    ∃ s, SetIn tree path s ∧ c = s.config := by
  rw [loadOrStandard]
  constructor
  · intro h
    split at h
    case h_1 =>
      obtain ⟨text, document, htext, hdocument, s, hs, rfl⟩ := load_eq_ok_iff.mp h
      exact ⟨s, .present htext hdocument hs, rfl⟩
    case h_2 habsent => exact ⟨{}, .absent habsent, (Except.ok.inj h).symm⟩
    case h_3 => cases h
  · rintro ⟨s, habsent | ⟨htext, hdocument, hs⟩, rfl⟩
    · rw [habsent]
      rfl
    · rw [exists?_of_readText htext]
      exact load_eq_ok_iff.mpr ⟨_, _, htext, hdocument, s, hs, rfl⟩

/-- A document without contents sets nothing. -/
example : read [] = some standard := by rfl

end Config

end ArchFacts
