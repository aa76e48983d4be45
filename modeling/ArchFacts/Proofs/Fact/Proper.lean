import ArchFacts.Proofs.Fact.RoundTrip
import ArchFacts.Proofs.Json.Proper

/-!
# Facts that are read can be written

The properties of a fact that was read are proper and leave room for the fact around them
(`Fact.Proper`, `Fact.proper_read`). So it can be written and read again, unless a double is among
its properties (`Fact.Proper.writable`).
-/

namespace ArchFacts

open Json

/-! ### Records -/

namespace Json.RecordField

variable {α : Type} {p : α → Prop} {fields : List (RecordField α)} {record result : α} {node : Node}

/-- A field that keeps a property of the record, whatever proper node it is decoded from. -/
def Keeps (p : α → Prop) (field : RecordField α) : Prop :=
  ∀ node set, node.Proper → field.decode node = .ok set → ∀ record, p record → p (set record)

theorem keeps_decodeMembers (hfields : ∀ field ∈ fields, field.Keeps p) {seen seen' : List String}
    {members : List (Quoted × Node)} (hmembers : ProperMembers members) (hrecord : p record)
    (h : decodeMembers fields seen record members = .ok (result, seen')) : p result := by
  induction members generalizing seen record with
  | nil =>
    obtain ⟨rfl, -⟩ := Prod.mk.inj (Except.ok.inj h)
    exact hrecord
  | cons member members ih =>
    obtain ⟨hnode, hmembers⟩ := properMembers_cons.mp hmembers
    obtain ⟨name, -, h⟩ := bind_eq_ok.mp h
    split at h
    case h_1 field hfind =>
      split at h
      case isTrue => cases h
      case isFalse =>
        obtain ⟨set, hset, h⟩ := bind_eq_ok.mp h
        have hfield := hfields field (List.mem_of_find?_eq_some hfind)
        exact ih hmembers (hfield _ set hnode hset record hrecord) h
    case h_2 =>
      obtain ⟨-, -, h⟩ := bind_eq_ok.mp h
      exact ih hmembers hrecord h

theorem keeps_decodeItems (hfields : ∀ field ∈ fields, field.Keeps p) {items : List Node}
    (hitems : ProperItems items) (hrecord : p record)
    (h : decodeItems record fields items = .ok result) : p result := by
  induction fields generalizing record items with
  | nil => rwa [← Except.ok.inj h]
  | cons field fields ih =>
    cases items with
    | nil => rwa [← Except.ok.inj h]
    | cons node items =>
      obtain ⟨hfield, hfields⟩ := List.forall_mem_cons.mp hfields
      obtain ⟨hnode, hitems⟩ := properItems_cons.mp hitems
      obtain ⟨set, hset, h⟩ := bind_eq_ok.mp h
      exact ih hfields hitems (hfield node set hnode hset record hrecord) h

/-- What all fields keep holds of a record that is decoded, if it holds of the one to begin with. -/
theorem keeps_decodeRecord (hfields : ∀ field ∈ fields, field.Keeps p) (hnode : node.Proper)
    (hrecord : p record) {origin : Origin} {title : String}
    (h : decodeRecord origin title fields record node = .ok result) : p result := by
  unfold decodeRecord at h
  split at h
  case h_1 members cut =>
    obtain ⟨⟨decoded, seen⟩, hdecoded, h⟩ := bind_eq_ok.mp h
    obtain ⟨-, -, h⟩ := bind_eq_ok.mp h
    split at h
    case h_1 => cases h
    case h_2 =>
      obtain rfl := Except.ok.inj h
      exact keeps_decodeMembers hfields (Node.proper_object.mp hnode) hrecord hdecoded
  case h_2 items cut =>
    obtain ⟨decoded, hdecoded, h⟩ := bind_eq_ok.mp h
    split at h
    case isTrue => cases h
    case isFalse =>
      obtain ⟨-, -, h⟩ := bind_eq_ok.mp h
      split at h
      case isTrue => cases h
      case isFalse =>
        obtain rfl := Except.ok.inj h
        exact keeps_decodeItems hfields (Node.proper_array.mp hnode) hrecord hdecoded
  case h_3 => exact absurd h (Node.mismatch_ne_ok title node)

/-- A field that sets something else keeps the property. -/
theorem keeps_of {β : Type} {name : String} {decode : Node → Except DecodeError β} {set : β → α → α}
    (h : ∀ node b, node.Proper → decode node = .ok b → ∀ record, p record → p (set b record)) :
    (RecordField.of name decode set).Keeps p := by
  intro node _ hnode hdecode
  obtain ⟨b, hb, rfl⟩ := map_eq_ok.mp hdecode
  exact h node b hnode hb

theorem keeps_need {field : RecordField α} (h : field.Keeps p) : field.need.Keeps p := h

end Json.RecordField

/-! ### Facts -/

open RecordField (keeps_need keeps_of)

namespace Fact

variable {f g : Fact}

/-- A fact whose properties are as a text can hold them. -/
structure Proper (f : Fact) : Prop where
  props : (Value.object f.props).Proper
  depth : Value.depthFields f.props ≤ propDepth

/-- Only the properties matter. -/
theorem Proper.of_props (h : f.Proper) (hprops : g.props = f.props) : g.Proper :=
  ⟨hprops ▸ h.props, hprops ▸ h.depth⟩

theorem proper_decodeTable {room : Nat} {node : Node} {fields : Fields Value} (hnode : node.Proper)
    (h : Node.decodeTable room node = .ok fields) :
    (Value.object fields).Proper ∧ Value.depthFields fields ≤ room := by
  unfold Node.decodeTable at h
  split at h
  case h_1 members cut =>
    obtain ⟨pairs, hpairs, h⟩ := bind_eq_ok.mp h
    obtain ⟨-, -, h⟩ := bind_eq_ok.mp h
    obtain rfl := Except.ok.inj h
    obtain ⟨hproper, hdepth⟩ := Node.proper_valueMembers members (Node.proper_object.mp hnode)
      (mapError_eq_ok.mp hpairs)
    exact ⟨Value.proper_ofPairs hproper, Nat.le_of_succ_le_succ (Value.depth_ofPairs_le hdepth)⟩
  case h_2 => exact absurd h (Node.mismatch_ne_ok "a map" node)

theorem keeps_fields (origin : Origin) : ∀ field ∈ fields origin, field.Keeps Proper := by
  -- only one of the fields sets the properties
  have hother {β : Type} {name : String} {decode : Node → Except DecodeError β}
      {set : β → Fact → Fact} (hset : ∀ b f, (set b f).props = f.props) :
      (RecordField.of name decode set).Keeps Proper :=
    keeps_of fun _ b _ _ f hf => hf.of_props (hset b f)
  have hprops : (RecordField.of "props" (Node.decodeTable propDepth)
      fun props f => { f with props }).Keeps Proper :=
    keeps_of fun node props hnode hdecode f _ => by
      obtain ⟨hproper, hdepth⟩ := proper_decodeTable hnode hdecode
      exact ⟨hproper, hdepth⟩
  simp only [fields, List.forall_mem_cons]
  exact ⟨keeps_need (hother fun _ _ => rfl), hother fun _ _ => rfl, hother fun _ _ => rfl,
    hother fun _ _ => rfl, hother fun _ _ => rfl, hprops, hother fun _ _ => rfl,
    List.forall_mem_nil _⟩

/-- **Facts that are read** are proper. -/
theorem proper_read {text : List Char} (h : Fact.read text = .ok f) : f.Proper := by
  have hbegin : (Fact.of ⟨""⟩ "").Proper := ⟨⟨List.Pairwise.nil, trivial⟩, Nat.zero_le _⟩
  exact RecordField.keeps_decodeRecord (keeps_fields .text) (Node.proper_ofText text) hbegin
    (readWhole_eq_ok h)

/-! ### Writing them again -/

theorem depthItems_relations (relations : List Relation) :
    Value.depthItems (relations.map Relation.value) ≤ 1 := by
  induction relations with
  | nil => exact Nat.zero_le _
  | cons r relations ih =>
    have hvalue : r.value.depth ≤ 1 := Value.depth_ofPairs_le (Nat.zero_le 0)
    exact Nat.max_le.mpr ⟨hvalue, ih⟩

theorem depth_value_le (h : Value.depthFields f.props ≤ propDepth) : f.value.depth ≤ deepest := by
  have hprops : (Value.object f.props).depth ≤ propDepth + 1 := Nat.succ_le_succ h
  have hrelations : (Value.array (f.relations.map Relation.value)).depth ≤ propDepth + 1 :=
    Nat.le_trans (Nat.succ_le_succ (depthItems_relations f.relations)) (by decide)
  have hflat {v : Value} (hv : v.depth = 0) : v.depth ≤ propDepth + 1 := hv ▸ Nat.zero_le _
  have hleft {q : Prop} [Decidable q] {name : String} {v : Value} (hv : v.depth ≤ propDepth + 1) :
      ∀ field ∈ if q then [] else [(name, v)], field.2.depth ≤ propDepth + 1 := by
    split
    · exact List.forall_mem_nil _
    · exact List.forall_mem_singleton.mpr hv
  refine Value.depth_ofPairs_le (Value.depthFields_le_iff.mpr ?_)
  simp only [List.forall_mem_append]
  refine ⟨⟨⟨⟨⟨?_, hleft (hflat rfl)⟩, hleft (hflat rfl)⟩, hleft (hflat rfl)⟩, hleft hprops⟩,
    hleft hrelations⟩
  exact List.forall_mem_cons.mpr ⟨hflat rfl, List.forall_mem_singleton.mpr (hflat rfl)⟩

/-- A fact that was read can be written, if it has no double in it. -/
theorem Proper.writable (h : f.Proper) (hwhole : Value.WholeFields f.props) : f.Writable :=
  ⟨hwhole, h.props, depth_value_le h.depth⟩

end Fact

end ArchFacts
