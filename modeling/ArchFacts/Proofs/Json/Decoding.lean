import ArchFacts.Json.Decode
import ArchFacts.Proofs.Json.Values
import ArchFacts.Proofs.Results
import Mathlib.Data.List.Nodup

/-!
# Records are read back

A decoder of records takes the fields of an object in one after the other, each of them changing the
record (`RecordField.Takes`). What it makes of the whole object is where that leads from the record
it starts with, provided that no name comes twice and no required one is missing
(`decodeRecord_of_takes`). Fields left out change nothing, so a field may be left out if the record
already holds what it would set (`Takes.leftOut`).
-/

namespace ArchFacts.Json

/-! ### Contents of fields -/

theorem Node.mismatch_ne_ok {α : Type} {a : α} (expected : String) (node : Node) :
    node.mismatch expected ≠ .ok a := by
  intro h
  obtain ⟨_, -, h⟩ := bind_eq_ok.mp h
  cases h

theorem decodeString_written (s : String) :
    Node.decodeString (.string (.written s)) = .ok s := by
  rw [Node.decodeString, text_written]
  rfl

theorem decodeUnsigned_int {n bound : Nat} (h : n < bound) (expected : String) :
    Node.decodeUnsigned bound expected (.number (.int n)) = .ok n := by
  rw [Node.decodeUnsigned, if_pos ⟨by omega, by omega⟩, Int.toNat_natCast]

/-- A list of texts, each of which spells a node that is decoded, is decoded as a whole. -/
theorem spells_decodeList {α : Type} {render : α → List Char}
    {decode : Node → Except DecodeError α} {items : List α}
    (h : ∀ a ∈ items, ∃ node, Spells (render a) node ∧ decode node = .ok a) :
    ∃ node, Spells (writeArray (items.map render)) node ∧
      Node.decodeList decode node = .ok items := by
  have hnodes : ∃ nodes, List.Forall₂ Spells (items.map render) nodes ∧
      nodes.mapM decode = .ok items := by
    induction items with
    | nil => exact ⟨[], .nil, rfl⟩
    | cons a items ih =>
      obtain ⟨ha, hrest⟩ := List.forall_mem_cons.mp h
      obtain ⟨node, hspells, hdecode⟩ := ha
      obtain ⟨nodes, hforall, hmap⟩ := ih hrest
      refine ⟨node :: nodes, .cons hspells hforall, ?_⟩
      rw [List.mapM_cons, hdecode, hmap]
      rfl
  obtain ⟨nodes, hspells, hmap⟩ := hnodes
  refine ⟨_, spells_array hspells, ?_⟩
  rw [Node.decodeList, hmap]
  rfl

/-- A table of values is decoded where there is room for it. -/
theorem spells_decodeTable {fields : Fields Value} (hwhole : Value.WholeFields fields)
    (hordered : Fields.Ordered fields) (hproper : Value.ProperFields fields) :
    ∃ node, Spells (writeObject (Value.writeFields fields)) node ∧
      ∀ room, Value.depthFields fields ≤ room → Node.decodeTable room node = .ok fields := by
  obtain ⟨members, hspells, hvalues⟩ := Value.spells_writeFields fields hwhole hproper
  refine ⟨_, spells_object hspells, fun room hroom => ?_⟩
  have hfields := Fields.ofPairs_of_ordered hordered
  rw [Node.decodeTable, hvalues room hroom]
  exact congrArg Except.ok hfields

/-! ### Records -/

namespace RecordField

variable {α : Type} {fields : List (RecordField α)} {texts : List (String × List Char)} {r r' : α}

/-- Fields by name and text that take a decoder from one record to another. -/
inductive Takes (fields : List (RecordField α)) : List (String × List Char) → α → α → Prop where
  | none (r : α) : Takes fields [] r r
  | cons {name : String} {text : List Char} {field : RecordField α} {node : Node} {set : α → α}
      {rest : List (String × List Char)} {r r' : α}
      (known : fields.find? (·.name == name) = some field) (spells : Spells text node)
      (decodes : field.decode node = .ok set) (others : Takes fields rest (set r) r') :
      Takes fields ((name, text) :: rest) r r'

namespace Takes

theorem append {more : List (String × List Char)} {r'' : α} (h : Takes fields texts r r')
    (hmore : Takes fields more r' r'') : Takes fields (texts ++ more) r r'' := by
  induction h with
  | none r => exact hmore
  | cons known spells decodes _ ih => exact .cons known spells decodes (ih hmore)

/-- One field that is set to what its text is decoded to. -/
theorem one {β : Type} {name : String} {decode : Node → Except DecodeError β} {set : β → α → α}
    {required : Bool} {text : List Char} {b : β}
    (known : fields.find? (·.name == name) = some { RecordField.of name decode set with required })
    (h : ∃ node, Spells text node ∧ decode node = .ok b) (r : α) :
    Takes fields [(name, text)] r (set b r) := by
  obtain ⟨node, hspells, hdecode⟩ := h
  refine .cons known hspells ?_ (.none _)
  exact congrArg (Except.map set) hdecode

/-- Fields may be left out if they do not change the record. -/
theorem leftOut {p : Prop} [Decidable p] (hleft : p → r' = r) (h : ¬p → Takes fields texts r r') :
    Takes fields (if p then [] else texts) r r' := by
  by_cases hp : p
  · rw [if_pos hp, hleft hp]
    exact .none r
  · rw [if_neg hp]
    exact h hp

/-- What the decoder makes of the members, if no name comes twice. -/
theorem decodeMembers (h : Takes fields texts r r') :
    ∃ members,
      List.Forall₂ SpellsMember (texts.map fun field => quote field.1 ++ ':' :: field.2) members ∧
      ∀ seen, (texts.map Prod.fst).Nodup → (∀ name ∈ texts.map Prod.fst, name ∉ seen) →
        decodeMembers fields seen r members = .ok (r', (texts.map Prod.fst).reverse ++ seen) := by
  induction h with
  | none r => exact ⟨[], .nil, fun _ _ _ => rfl⟩
  | @cons name text field node set rest r r' known spells decodes _ ih =>
    obtain ⟨members, hmembers, hdecode⟩ := ih
    refine ⟨(.written name, node) :: members, .cons (spells.member name) hmembers,
      fun seen hnodup hseen => ?_⟩
    obtain ⟨hname, hnodup⟩ := List.nodup_cons.mp hnodup
    obtain ⟨hfresh, hothers⟩ := List.forall_mem_cons.mp hseen
    -- the names to come are neither among those seen nor this one
    have hrest := hdecode (name :: seen) hnodup fun other hother hmem => by
      rcases List.mem_cons.mp hmem with rfl | hmem
      · exact hname hother
      · exact hothers other hother hmem
    have hnew : seen.contains name = false := by simpa using hfresh
    rw [RecordField.decodeMembers, text_written]
    simp only [Node.lift, Except.mapError, bind, Except.bind, known, hnew, decodes, hrest]
    simp

end Takes

/-- **Reading a record** that is written as an object. -/
theorem decodeRecord_of_takes (h : Takes fields texts r r') (hnodup : (texts.map Prod.fst).Nodup)
    (hrequired : ∀ field ∈ fields, field.required = true → field.name ∈ texts.map Prod.fst) :
    ∃ node, Spells (writeObject texts) node ∧
      ∀ origin title, decodeRecord origin title fields r node = .ok r' := by
  obtain ⟨members, hspells, hdecode⟩ := h.decodeMembers
  refine ⟨_, spells_object hspells, fun origin title => ?_⟩
  have hnone : (fields.find? fun field =>
      field.required && !((texts.map Prod.fst).reverse ++ []).contains field.name) = none := by
    refine List.find?_eq_none.mpr fun field hfield hmissing => ?_
    obtain ⟨hreq, habsent⟩ := Bool.and_eq_true_iff.mp hmissing
    have hmem := hrequired field hfield hreq
    rw [List.append_nil, Bool.not_eq_true', List.contains_eq_mem, decide_eq_false_iff_not] at habsent
    exact habsent (List.mem_reverse.mpr hmem)
  rw [decodeRecord, hdecode [] hnodup fun _ _ => List.not_mem_nil]
  simp only [bind, Except.bind, Node.lift, checkEnd, Except.mapError, hnone]
  rfl

end RecordField

end ArchFacts.Json
