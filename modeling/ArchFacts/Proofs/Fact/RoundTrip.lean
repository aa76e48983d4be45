import ArchFacts.Fact.Decoder
import ArchFacts.Fact.Writer
import ArchFacts.Proofs.Json.Decoding
import ArchFacts.Proofs.Records.Lines

/-!
# Facts are read back

A fact whose properties a text can hold (`Fact.Writable`) is read back from its text
(`Fact.read_write`). The fields that are left out of the text are those that the decoder begins
with. The text is an object on a single line, so it can be a record (`Fact.isRecord_write`).
-/

namespace ArchFacts

open Json
open RecordField (Takes)

namespace Relation

theorem spells_write (r : Relation) (origin : Origin) :
    ∃ node, Spells r.write node ∧ Relation.decode origin node = .ok r := by
  have hkind : RelationKind.decode (.string (.written r.kind.word)) = .ok r.kind := by
    rw [RelationKind.decode, decodeString_written]
    rfl
  have hfirst := Takes.one (show fields.find? (·.name == "kind") = some _ from rfl)
    ⟨_, spells_quote _, hkind⟩ ⟨⟨""⟩, ""⟩
  have hsecond := Takes.one (show fields.find? (·.name == "target") = some _ from rfl)
    ⟨_, spells_quote _, decodeString_written r.target⟩ { kind := r.kind, target := "" }
  have htakes : Takes fields [("kind", quote r.kind.word), ("target", quote r.target)] ⟨⟨""⟩, ""⟩ r :=
    hfirst.append hsecond
  obtain ⟨node, hspells, hdecode⟩ := RecordField.decodeRecord_of_takes htakes (by simp)
    (by simp [fields, RecordField.of, RecordField.need])
  exact ⟨node, hspells, hdecode origin _⟩

theorem lineFeed_notMem_write (r : Relation) : '\n' ∉ r.write := by
  refine lineFeed_notMem_writeObject fun field hfield => ?_
  rcases List.mem_cons.mp hfield with rfl | hfield
  · exact lineFeed_notMem_quote _
  · rw [List.mem_singleton.mp hfield]
    exact lineFeed_notMem_quote _

end Relation

namespace Fact

/-- A fact whose text can be read: without a double in its properties, with integers of at most 64
bits and tables in order, and no deeper than a text may be. -/
structure Writable (f : Fact) : Prop where
  whole : (Value.object f.props).Whole
  proper : (Value.object f.props).Proper
  depth : f.value.depth ≤ deepest

variable {f : Fact}

/-! ### Depth -/

/-- The properties stand two levels deep in the text. -/
theorem Writable.depthFields_props (h : f.Writable) : Value.depthFields f.props ≤ propDepth := by
  by_cases hempty : f.props.isEmpty
  · rw [List.isEmpty_iff.mp hempty]
    exact Nat.zero_le _
  · -- only the relations may stand behind the properties, so nothing replaces these
    have hmem (before : List (String × Value)) :
        ("props", Value.object f.props) ∈ Fields.ofPairs (before ++ [("props", .object f.props)] ++
          if f.relations = [] then [] else
            [("relations", .array (f.relations.map Relation.value))]) := by
      rw [List.append_assoc]
      refine Fields.mem_ofPairs before ?_
      split
      · exact List.not_mem_nil
      · simp
    have hdepth := h.depth
    rw [value, if_neg hempty] at hdepth
    refine Nat.le_of_succ_le_succ (Nat.le_of_succ_le_succ
      (Nat.le_trans (Nat.succ_le_succ ?_) hdepth))
    exact Value.depth_le_depthFields (hmem _)

/-! ### Fields -/

theorem spells_line (line : UInt32) :
    ∃ node, Spells (intText line.toNat) node ∧ decodeLine node = .ok line := by
  have hlt : line.toNat < UInt32.size := line.toNat_lt
  have hsize : UInt32.size < UInt64.size := by decide
  refine ⟨_, spells_intText (by omega) (by omega), ?_⟩
  rw [decodeLine, decodeUnsigned_int hlt]
  exact congrArg Except.ok UInt32.ofNat_toNat

/-- The decoder goes from the fact that it begins with to the one that was written. -/
theorem takes_writtenFields (h : f.Writable) (origin : Origin) :
    Takes (fields origin) f.writtenFields (Fact.of ⟨""⟩ "") f := by
  have hkind : FactKind.decode (.string (.written f.kind.word)) = .ok f.kind := by
    rw [FactKind.decode, decodeString_written]
    rfl
  have hprops : ∃ node, Spells (writeObject (Value.writeFields f.props)) node ∧
      Node.decodeTable propDepth node = .ok f.props := by
    obtain ⟨node, hspells, hdecode⟩ := spells_decodeTable h.whole h.proper.1 h.proper.2
    exact ⟨node, hspells, hdecode propDepth h.depthFields_props⟩
  have hrelations := spells_decodeList fun r (_ : r ∈ f.relations) => r.spells_write origin
  -- each fact has one more field of the one that was written
  let f₁ : Fact := Fact.of f.kind ""
  let f₂ : Fact := Fact.of f.kind f.name
  let f₃ : Fact := { f₂ with file := f.file }
  let f₄ : Fact := { f₃ with line := f.line }
  let f₅ : Fact := { f₄ with repo := f.repo }
  let f₆ : Fact := { f₅ with props := f.props }
  have hkind := Takes.one (show (fields origin).find? (·.name == "kind") = some _ from rfl)
    ⟨_, spells_quote _, hkind⟩ (Fact.of ⟨""⟩ "")
  have hname := Takes.one (show (fields origin).find? (·.name == "name") = some _ from rfl)
    ⟨_, spells_quote _, decodeString_written f.name⟩ f₁
  have hfile := Takes.one (show (fields origin).find? (·.name == "file") = some _ from rfl)
    ⟨_, spells_quote _, decodeString_written f.file⟩ f₂
  have hline := Takes.one (show (fields origin).find? (·.name == "line") = some _ from rfl)
    (spells_line f.line) f₃
  have hrepo := Takes.one (show (fields origin).find? (·.name == "repo") = some _ from rfl)
    ⟨_, spells_quote _, decodeString_written f.repo⟩ f₄
  have hprops := Takes.one (show (fields origin).find? (·.name == "props") = some _ from rfl)
    hprops f₅
  have hrelations := Takes.one
    (show (fields origin).find? (·.name == "relations") = some _ from rfl) hrelations f₆
  have hnoFile (hempty : f.file = "") : f₃ = f₂ := congrArg (fun file => { f₂ with file }) hempty
  have hnoLine (hempty : f.line = 0) : f₄ = f₃ := congrArg (fun line => { f₃ with line }) hempty
  have hnoRepo (hempty : f.repo = "") : f₅ = f₄ := congrArg (fun repo => { f₄ with repo }) hempty
  have hnoProps (hempty : f.props.isEmpty = true) : f₆ = f₅ :=
    congrArg (fun props => { f₅ with props }) (List.isEmpty_iff.mp hempty)
  have hnoRelations (hempty : f.relations = []) : f = f₆ :=
    congrArg (fun relations => { f₆ with relations }) hempty
  exact (((((hkind.append hname).append (.leftOut hnoFile fun _ => hfile)).append
    (.leftOut hnoLine fun _ => hline)).append (.leftOut hnoRepo fun _ => hrepo)).append
    (.leftOut hnoProps fun _ => hprops)).append (.leftOut hnoRelations fun _ => hrelations)

/-- The names of the fields that are written stand in the order of their declaration. -/
theorem names_writtenFields (f : Fact) :
    (f.writtenFields.map Prod.fst).Sublist
      ["kind", "name", "file", "line", "repo", "props", "relations"] := by
  have hleft {p : Prop} [Decidable p] (name : String) (text : List Char) :
      ((if p then [] else [(name, text)]).map Prod.fst).Sublist [name] := by
    split
    · exact List.nil_sublist _
    · exact List.Sublist.refl _
  unfold writtenFields
  simp only [List.map_append]
  exact (((((List.Sublist.refl ["kind", "name"]).append (hleft _ _)).append (hleft _ _)).append
    (hleft _ _)).append (hleft _ _)).append (hleft _ _)

/-- The text of a fact spells a node that is decoded into the fact. -/
theorem Writable.spells_write (h : f.Writable) (origin : Origin) :
    ∃ node, Spells f.write node ∧ Fact.decode origin node = .ok f := by
  have hnodup : (f.writtenFields.map Prod.fst).Nodup := (names_writtenFields f).nodup (by decide)
  have hrequired : ∀ field ∈ fields origin, field.required = true →
      field.name ∈ f.writtenFields.map Prod.fst := by
    simp [fields, RecordField.of, RecordField.need, writtenFields]
  obtain ⟨node, hspells, hdecode⟩ :=
    RecordField.decodeRecord_of_takes (takes_writtenFields h origin) hnodup hrequired
  exact ⟨node, hspells, hdecode origin _⟩

/-- **Reading back a fact** from its text. -/
theorem read_write (h : f.Writable) : Fact.read f.write = .ok f := by
  obtain ⟨node, hspells, hdecode⟩ := h.spells_write .text
  rw [Fact.read, readWhole_of_spells DecodeError.fault _ hspells, hdecode]

/-! ### One line -/

theorem lineFeed_notMem_write (h : f.Writable) : '\n' ∉ f.write := by
  have hleft {p : Prop} [Decidable p] (name : String) {text : List Char} (h : '\n' ∉ text) :
      ∀ field ∈ if p then [] else [(name, text)], '\n' ∉ field.2 := by
    split
    · exact List.forall_mem_nil _
    · exact List.forall_mem_singleton.mpr h
  have hprops : '\n' ∉ writeObject (Value.writeFields f.props) :=
    lineFeed_notMem_writeObject (Value.lineFeed_notMem_writeFields f.props h.whole)
  have hrelations : '\n' ∉ writeArray (f.relations.map Relation.write) := by
    refine lineFeed_notMem_writeArray fun text htext => ?_
    obtain ⟨r, -, rfl⟩ := List.mem_map.mp htext
    exact r.lineFeed_notMem_write
  refine lineFeed_notMem_writeObject ?_
  simp only [writtenFields, List.forall_mem_append]
  refine ⟨⟨⟨⟨⟨?_, hleft "file" (lineFeed_notMem_quote _)⟩, hleft "line" (lineFeed_notMem_intText _)⟩,
    hleft "repo" (lineFeed_notMem_quote _)⟩, hleft "props" hprops⟩, hleft "relations" hrelations⟩
  simp [lineFeed_notMem_quote]

/-- The text of a fact stands on a line of its own, between two braces. -/
theorem isRecord_write (h : f.Writable) : Records.IsRecord f.write where
  nonempty := List.cons_ne_nil _ _
  oneLine := lineFeed_notMem_write h
  trimmed := Text.trim_enclosed rfl rfl _

end Fact

end ArchFacts
