import ArchFacts.Config.File
import ArchFacts.Proofs.Directory.Writing
import ArchFacts.Proofs.Text.Utf8
import ArchFacts.Proofs.Yaml.BlockMapping

/-!
# Saving and loading configurations

A configuration is written as a mapping in a block (`Config.lays_write`). Its text is read as this
mapping, which decodes to the configuration again (`Config.read_write`). So what is saved in a file
is loaded from it (`Config.load_save`). The path of the data file may be any text on one line: if it
looks like a number or like nothing at all, it is written in quotes.
-/

namespace ArchFacts

open Yaml Yaml.Layout Directory

/-! ### Entries -/

/-- The entry of a key. -/
def entryOf (key : String) (value : Node) : Node × Node := (.scalar {} .plain key, value)

/-- The node of a number. -/
def numberNode (n : UInt64) : Node := .scalar {} .plain (String.ofList (Nat.toDigits 10 n.toNat))

/-- The entries of the ceilings of a search. -/
def Ceilings.entries (c : Ceilings) : List (Node × Node) :=
  [entryOf "max_depth" (numberNode c.maxDepth), entryOf "max_nodes" (numberNode c.maxNodes)]

/-- The entries of the limits. -/
def Limits.entries (l : Limits) : List (Node × Node) :=
  [entryOf "traverse" (.mapping {} l.traverse.entries), entryOf "path" (.mapping {} l.path.entries),
    entryOf "impact" (.mapping {} l.impact.entries)]

/-- The entries of a configuration. -/
def Config.entries (c : Config) : List (Node × Node) :=
  [entryOf "data_file" (.scalar {} (styleOf c.dataFile.toList) c.dataFile),
    entryOf "limits" (.mapping {} c.limits.entries)]

/-! ### Lines -/

/-- Some lines are those of some entries in a block at a column. -/
def Lays (indent : Nat) (text : List Char) (entries : List (Node × Node)) : Prop :=
  ∃ tokens, Laid indent text tokens entries

variable {indent inner : Nat} {key : String} {text lines : List Char}
  {entries nested : List (Node × Node)}

theorem lays_nil : Lays indent [] [] := ⟨_, .nil⟩

theorem lays_number (hkey : IsKey key.toList) (n : UInt64) (h : Lays indent text entries) :
    Lays indent (writeCeiling indent key n ++ text) (entryOf key (numberNode n) :: entries) := by
  obtain ⟨tokens, h⟩ := h
  have hline := Laid.cons key.toList hkey (.scalar (.plain (canBePlain_toDigits n.toNat))) h
  rw [String.ofList_toList] at hline
  exact ⟨_, by simpa [writeCeiling, entryOf, numberNode] using hline⟩

theorem lays_mapping (hkey : IsKey key.toList) (hdeeper : indent < inner) (hne : nested ≠ [])
    (hnested : Lays inner lines nested) (h : Lays indent text entries) :
    Lays indent (writeKey indent key ++ lines ++ text)
      (entryOf key (.mapping {} nested) :: entries) := by
  obtain ⟨tokens, h⟩ := h
  obtain ⟨innerTokens, hnested⟩ := hnested
  have hlines := Laid.cons key.toList hkey (.mapping inner hdeeper hne hnested) h
  rw [String.ofList_toList] at hlines
  exact ⟨_, by simpa [writeKey, entryOf] using hlines⟩

/-- A key with a text on one line stands on a line of its own. -/
theorem writeEntry_of_oneLine {value : String} (hkey : IsKey key.toList)
    (hvalue : OneLine value.toList) :
    writeEntry key value = key.toList ++ ':' :: ' ' :: (writeScalar 2 value ++ ['\n']) := by
  have hwritten := oneLine_written (written_writeScalar hvalue 2)
  have hchars : ∀ c ∈ key.toList ++ ':' :: ' ' :: writeScalar 2 value, isBreak c = false := by
    refine List.forall_mem_append.mpr ⟨fun c hc => ?_, List.forall_mem_cons.mpr ⟨by decide,
      List.forall_mem_cons.mpr ⟨by decide, fun c hc => (hwritten c hc).2⟩⟩⟩
    exact (startsWord_iff.mp (startsWord_of_isKeyChar (hkey.chars c hc))).2.1
  have hlast : (key.toList ++ ':' :: ' ' :: writeScalar 2 value).getLast?.any isBreak = false := by
    cases hc : (key.toList ++ ':' :: ' ' :: writeScalar 2 value).getLast? with
    | none => rfl
    | some c => exact hchars c (List.mem_of_getLast? hc)
  rw [writeEntry]
  simp only [hlast, Bool.false_eq_true, if_false, List.append_assoc, List.cons_append]

theorem lays_text {value : String} (hkey : IsKey key.toList) (hvalue : OneLine value.toList)
    (h : Lays 0 text entries) : Lays 0 (writeEntry key value ++ text)
      (entryOf key (.scalar {} (styleOf value.toList) value) :: entries) := by
  obtain ⟨tokens, h⟩ := h
  have hline := Laid.cons key.toList hkey (.scalar (written_writeScalar hvalue 2)) h
  rw [String.ofList_toList, String.ofList_toList] at hline
  rw [writeEntry_of_oneLine hkey hvalue]
  exact ⟨_, by simpa [entryOf] using hline⟩

theorem Ceilings.lays_write (hkey : IsKey key.toList) (c : Ceilings) (h : Lays 2 text entries) :
    Lays 2 (c.write key ++ text) (entryOf key (.mapping {} c.entries) :: entries) := by
  have hne : c.entries ≠ [] := List.cons_ne_nil _ _
  have hlines : Lays 4
      (writeCeiling 4 "max_depth" c.maxDepth ++ (writeCeiling 4 "max_nodes" c.maxNodes ++ []))
      c.entries :=
    lays_number (by decide) c.maxDepth (lays_number (by decide) c.maxNodes lays_nil)
  simpa [Ceilings.write] using lays_mapping hkey (by decide) hne hlines h

theorem Limits.lays_write (l : Limits) :
    Lays 0 l.write [entryOf "limits" (.mapping {} l.entries)] := by
  have hkey : IsKey "limits".toList := by decide
  have hne : l.entries ≠ [] := List.cons_ne_nil _ _
  have hlines : Lays 2 (l.traverse.write "traverse" ++
      (l.path.write "path" ++ (l.impact.write "impact" ++ []))) l.entries :=
    l.traverse.lays_write (by decide) (l.path.lays_write (by decide)
      (l.impact.lays_write (by decide) lays_nil))
  have hlimits : Lays 0 _ _ := lays_mapping hkey (by decide) hne hlines lays_nil
  simpa [Limits.write] using hlimits

theorem Config.lays_write (c : Config) (h : OneLine c.dataFile.toList) : Lays 0 c.write c.entries :=
  lays_text (by decide) h c.limits.lays_write

/-! ### Nodes -/

variable {document : Node}

theorem Ceilings.decodeOne_numberNode (n : UInt64) :
    decodeOne document (numberNode n) = some n := by
  have hsize : n.toNat < UInt64.size := n.toNat_lt_size
  simp [decodeOne, numberNode, Node.resolve, mayBeNumber, natural?_toDigits, hsize]

theorem Ceilings.decode_entries (c : Ceilings) :
    Ceilings.decode document (.mapping {} c.entries) = some c := by
  simp [Ceilings.decode, Setting.decode, Setting.decodeEntries, Setting.textOf?, Setting.of,
    Ceilings.settings, Ceilings.entries, entryOf, Node.resolve, Ceilings.decodeOne_numberNode]

theorem Limits.decode_entries (l : Limits) :
    Limits.decode document (.mapping {} l.entries) = some l := by
  simp [Limits.decode, Setting.decode, Setting.decodeEntries, Setting.textOf?, Setting.of,
    Limits.settings, Limits.entries, entryOf, Node.resolve, Ceilings.decode_entries]

theorem Config.decode_entries (c : Config) : Config.decode (.mapping {} c.entries) = some c := by
  simp [Config.decode, Setting.decode, Setting.decodeEntries, Setting.textOf?, Setting.of,
    Config.settings, Config.entries, entryOf, Node.resolve, Limits.decode_entries]

/-- **What is written is read.** -/
theorem Config.read_write (c : Config) (h : OneLine c.dataFile.toList) :
    Config.read c.write = some c := by
  obtain ⟨tokens, hlaid⟩ := c.lays_write h
  rw [Config.read, ofText?_of_laid hlaid (List.cons_ne_nil _ _)]
  exact c.decode_entries

/-! ### Files -/

namespace Config

variable {c : Config} {tree saved : Tree} {path : String}

/-- A file can be written in a path once the directories above it are made, in a tree that has grown
by them and at a place that is no directory. -/
def SavesAt (tree : Tree) (path : String) (grown : Tree) (place : Place) : Prop :=
  tree.makeDirectories (Path.above path) = (.ok (), grown) ∧ (Path.ofText path).slash = false ∧
    grown.locate path = .ok place ∧ grown.get? place ≠ some .directory

theorem save_of_savesAt {grown : Tree} {place : Place} (h : SavesAt tree path grown place) :
    c.save tree path = (.ok (), grown.put place (.file (Text.Utf8.encode c.write))) := by
  obtain ⟨hmake, hslash, hplace, hfree⟩ := h
  have hwrite : grown.writeBytes path (Text.Utf8.encode c.write) =
      .ok (grown.put place (.file (Text.Utf8.encode c.write))) :=
    Tree.writeBytes_eq_ok_iff.mpr ⟨hslash, place, hplace, hfree, rfl⟩
  simp only [save, hmake, hwrite]

theorem savesAt_of_save (h : (c.save tree path).1 = .ok ()) :
    ∃ grown place, SavesAt tree path grown place := by
  rw [save] at h
  rcases hmake : tree.makeDirectories (Path.above path) with ⟨fault | ⟨⟩, grown⟩
  · rw [hmake] at h
    cases h
  · rw [hmake] at h
    cases hwrite : grown.writeBytes path (Text.Utf8.encode c.write) with
    | error fault =>
      simp only [hwrite] at h
      cases h
    | ok after =>
      obtain ⟨hslash, place, hplace, hfree, -⟩ := Tree.writeBytes_eq_ok_iff.mp hwrite
      exact ⟨grown, place, hmake, hslash, hplace, hfree⟩

/-- **A configuration is loaded as it was saved**, whatever its data file is called and whatever its
ceilings are. If it can be saved does not depend on it. -/
theorem load_save (c : Config) (hline : OneLine c.dataFile.toList) (tree : Tree) (path : String) :
    ((c.save tree path).1 = .ok () ↔ ∃ grown place, SavesAt tree path grown place) ∧
      ∀ saved, c.save tree path = (.ok (), saved) →
        load saved path = .ok c ∧ loadOrStandard saved path = .ok c := by
  refine ⟨⟨savesAt_of_save, fun ⟨grown, place, h⟩ => congrArg Prod.fst (save_of_savesAt h)⟩,
    fun saved hsave => ?_⟩
  obtain ⟨grown, place, h⟩ := savesAt_of_save (congrArg Prod.fst hsave)
  obtain rfl : grown.put place (.file (Text.Utf8.encode c.write)) = saved :=
    congrArg Prod.snd ((save_of_savesAt h).symm.trans hsave)
  obtain ⟨-, hslash, hplace, hfree⟩ := h
  have hroot : place ≠ [] := fun heq => hfree (if_pos heq)
  have hread : (grown.put place (.file (Text.Utf8.encode c.write))).readBytes path =
      .ok (Text.Utf8.encode c.write) := by
    refine Tree.readBytes_eq_ok_iff.mpr ⟨place, (Tree.Keeps.put hfree _).locate hplace, ?_, hslash⟩
    rw [Tree.get?_put _ _ _ _ hroot, if_pos rfl]
  have hload : load (grown.put place (.file (Text.Utf8.encode c.write))) path = .ok c := by
    simp only [load, Tree.readText, hread, Text.Utf8.decode_encode, read_write c hline]
  refine ⟨hload, ?_⟩
  rw [loadOrStandard, Tree.exists?_of_readBytes hread]
  exact hload

/-- A data file that is called like infinity, with a ceiling as great as it can be, in a directory
that has to be made; and one without a name. -/
theorem load_save_infinity :
    OneLine ".inf".toList ∧ OneLine "".toList ∧
      load ((Config.mk ".inf" ⟨⟨0, 18446744073709551615⟩, ⟨10, 0⟩, {}⟩).save .empty "a/b").2 "a/b" =
        .ok ⟨".inf", ⟨⟨0, 18446744073709551615⟩, ⟨10, 0⟩, {}⟩⟩ ∧
      load ((Config.mk "" {}).save .empty "b").2 "b" = .ok ⟨"", {}⟩ := by
  have hinfinity : OneLine ".inf".toList := oneLine_of_isPathChar (by decide)
  have hempty : OneLine "".toList := oneLine_of_isPathChar (by decide)
  have hsaves : SavesAt .empty "a/b" ⟨[], [(["a"], .directory)]⟩ ["a", "b"] :=
    ⟨rfl, rfl, rfl, by decide⟩
  have hsaves' : SavesAt .empty "b" .empty ["b"] := ⟨rfl, rfl, rfl, by decide⟩
  obtain ⟨hsaved, hload⟩ :=
    load_save ⟨".inf", ⟨⟨0, 18446744073709551615⟩, ⟨10, 0⟩, {}⟩⟩ hinfinity .empty "a/b"
  obtain ⟨hsaved', hload'⟩ := load_save ⟨"", {}⟩ hempty .empty "b"
  exact ⟨hinfinity, hempty, (hload _ (Prod.ext (hsaved.mpr ⟨_, _, hsaves⟩) rfl)).1,
    (hload' _ (Prod.ext (hsaved'.mpr ⟨_, _, hsaves'⟩) rfl)).1⟩

end Config

end ArchFacts
