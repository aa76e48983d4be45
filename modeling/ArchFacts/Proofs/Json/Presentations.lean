import ArchFacts.Proofs.Json.Contents
import Mathlib.Data.List.Pairwise

/-!
# Every way of writing a record

A record is written as an object or as an array. In an object its fields stand in any order, each
once at most and beside any others; what is left out is as in the record that one begins with. An
array has the first fields, in the order of their declaration (`Presents`). A decoder takes these
shapes and no others to the record (`decodeRecord_eq_ok_iff`), provided that its fields are
independent of one another and all there is to a record (`Independent`).

What is refused, and why, is told by `Refused`.
-/

namespace ArchFacts.Json

variable {α : Type}

/-! ### Fields -/

/-- A field of a record, with the shapes that stand for what it holds, and those that are not of its
type. -/
structure Slot (α : Type) where
  name : String
  required : Bool
  Content : Type
  get : α → Content
  set : Content → α → α
  decode : Node → Except DecodeError Content
  Stands : Node → Content → Prop
  Misfit : Node → Prop
  get_set : ∀ content a, get (set content a) = content
  decode_eq_ok_iff : ∀ {node content},
    decode node = .ok content ↔ node.skip = .ok () ∧ Stands node content
  not_stands : ∀ {node content}, Misfit node → ¬Stands node content

namespace Slot

/-- The field as the decoder has it. -/
def field (slot : Slot α) : RecordField α :=
  { RecordField.of slot.name slot.decode slot.set with required := slot.required }

variable {slot : Slot α} {node : Node} {set : α → α}

theorem decode_field_eq_ok_iff : slot.field.decode node = .ok set ↔
    node.skip = .ok () ∧ ∃ content, slot.Stands node content ∧ set = slot.set content := by
  refine map_eq_ok.trans ⟨?_, ?_⟩
  · rintro ⟨content, hcontent, rfl⟩
    obtain ⟨hskip, hstands⟩ := slot.decode_eq_ok_iff.mp hcontent
    exact ⟨hskip, content, hstands, rfl⟩
  · rintro ⟨hskip, content, hstands, rfl⟩
    exact ⟨content, slot.decode_eq_ok_iff.mpr ⟨hskip, hstands⟩, rfl⟩

/-- A shape stands for one content at most. -/
theorem stands_unique {content content' : slot.Content} (hskip : node.skip = .ok ())
    (h : slot.Stands node content) (h' : slot.Stands node content') : content = content' :=
  Except.ok.inj ((slot.decode_eq_ok_iff.mpr ⟨hskip, h⟩).symm.trans
    (slot.decode_eq_ok_iff.mpr ⟨hskip, h'⟩))

/-- Two fields do not touch each other. -/
structure Apart (slot slot' : Slot α) : Prop where
  name : slot.name ≠ slot'.name
  get : ∀ content a, slot.get (slot'.set content a) = slot.get a
  get' : ∀ content a, slot'.get (slot.set content a) = slot'.get a

instance : Std.Symm (Slot.Apart (α := α)) := ⟨fun _ _ h => ⟨h.name.symm, h.get', h.get⟩⟩

end Slot

/-- Fields that are independent of one another and all there is to a record. -/
structure Independent (slots : List (Slot α)) : Prop where
  apart : slots.Pairwise Slot.Apart
  ext : ∀ a b, (∀ slot ∈ slots, slot.get a = slot.get b) → a = b

/-! ### Presentations -/

/-- A member of an object has some name. -/
def Named (name : String) (member : Quoted × Node) : Prop := member.1.StandsFor name

/-- A record by the members of an object, where `init` has what fields hold that are left out. -/
structure PresentsMembers (slots : List (Slot α)) (init a : α) (members : List (Quoted × Node)) :
    Prop where
  names : ∀ member ∈ members, ∃ name, Named name member
  holds : ∀ member ∈ members, ∀ slot ∈ slots, Named slot.name member →
    slot.Stands member.2 (slot.get a)
  once : members.Pairwise fun first second => ∀ slot ∈ slots,
    Named slot.name first → ¬Named slot.name second
  leftOut : ∀ slot ∈ slots, (∀ member ∈ members, ¬Named slot.name member) →
    slot.required = false ∧ slot.get a = slot.get init

/-- A record by the items of an array, in the order of the fields. -/
structure PresentsItems (slots : List (Slot α)) (init a : α) (items : List Node) : Prop where
  short : items.length ≤ slots.length
  holds : List.Forall₂ (fun slot node => slot.Stands node (slot.get a))
    (slots.take items.length) items
  leftOut : ∀ slot ∈ slots.drop items.length, slot.required = false ∧ slot.get a = slot.get init

/-- The shapes of a record. -/
inductive Presents (slots : List (Slot α)) (init a : α) : Node → Prop where
  | object {members : List (Quoted × Node)} (h : PresentsMembers slots init a members) :
      Presents slots init a (.object members none)
  | array {items : List Node} (h : PresentsItems slots init a items) :
      Presents slots init a (.array items none)

/-- The members of an object stand in any order. -/
theorem PresentsMembers.perm {slots : List (Slot α)} {init a : α}
    {members members' : List (Quoted × Node)} (hperm : members.Perm members')
    (h : PresentsMembers slots init a members) : PresentsMembers slots init a members' where
  names member hmember := h.names member (hperm.mem_iff.mpr hmember)
  holds member hmember := h.holds member (hperm.mem_iff.mpr hmember)
  once := (hperm.pairwise_iff fun hfirst slot hslot hsecond hnamed =>
    hfirst slot hslot hnamed hsecond).mp h.once
  leftOut slot hslot hnone := h.leftOut slot hslot fun member hmember =>
    hnone member (hperm.mem_iff.mp hmember)

/-! ### Decoding -/

section

variable {slots : List (Slot α)} {slot slot' : Slot α}

theorem apart_of_mem (hslots : slots.Pairwise Slot.Apart) (h : slot ∈ slots) (h' : slot' ∈ slots)
    (hne : slot ≠ slot') : slot.Apart slot' :=
  hslots.forall h h' hne

theorem eq_of_name (hslots : slots.Pairwise Slot.Apart) (h : slot ∈ slots) (h' : slot' ∈ slots)
    (hname : slot.name = slot'.name) : slot = slot' := by
  by_contra hne
  exact (apart_of_mem hslots h h' hne).name hname

theorem name_of_find? {name : String} (h : slots.find? (·.name == name) = some slot) :
    slot ∈ slots ∧ slot.name = name := by
  have hname : (slot.name == name) = true :=
    List.find?_some (p := fun slot : Slot α => slot.name == name) h
  exact ⟨List.mem_of_find?_eq_some h, eq_of_beq hname⟩

theorem name_ne_of_find? {name : String} (h : slots.find? (·.name == name) = none)
    (hslot : slot ∈ slots) : slot.name ≠ name := fun hname =>
  List.find?_eq_none.mp h slot hslot (beq_iff_eq.mpr hname)

end

namespace RecordField

variable {slots : List (Slot α)} {slot : Slot α} {record result init a : α} {seen seen' : List String}
  {name : String} {key : Quoted} {node : Node} {members : List (Quoted × Node)} {items : List Node}

theorem find?_field (slots : List (Slot α)) (name : String) :
    (slots.map Slot.field).find? (·.name == name) = (slots.find? (·.name == name)).map Slot.field :=
  List.find?_map ..

/-- One member of an object: a field that was not there before, or one that is not known. -/
theorem decodeMembers_cons_eq_ok_iff :
    decodeMembers (slots.map Slot.field) seen record ((key, node) :: members) = .ok (result, seen') ↔
      ∃ name, key.StandsFor name ∧ node.skip = .ok () ∧
        ((∃ slot, slots.find? (·.name == name) = some slot ∧ name ∉ seen ∧
            ∃ content, slot.Stands node content ∧ decodeMembers (slots.map Slot.field) (name :: seen)
              (slot.set content record) members = .ok (result, seen')) ∨
          slots.find? (·.name == name) = none ∧
            decodeMembers (slots.map Slot.field) seen record members = .ok (result, seen')) := by
  constructor
  · intro h
    obtain ⟨name, hname, h⟩ := bind_eq_ok.mp h
    have hkey := Quoted.text_eq_ok_iff.mp (lift_eq_ok.mp hname)
    rw [find?_field] at h
    cases hfind : slots.find? (·.name == name) with
    | some slot =>
      rw [hfind] at h
      dsimp only [Option.map] at h
      split at h
      case isTrue => cases h
      case isFalse hseen =>
        obtain ⟨set, hset, h⟩ := bind_eq_ok.mp h
        obtain ⟨hskip, content, hstands, rfl⟩ := Slot.decode_field_eq_ok_iff.mp hset
        exact ⟨name, hkey, hskip, Or.inl ⟨slot, hfind, by simpa using hseen, content, hstands, h⟩⟩
    | none =>
      rw [hfind] at h
      obtain ⟨⟨⟩, hskip, h⟩ := bind_eq_ok.mp h
      exact ⟨name, hkey, lift_eq_ok.mp hskip, Or.inr ⟨hfind, h⟩⟩
  · rintro ⟨name, hkey, hskip, hrest⟩
    refine bind_eq_ok.mpr ⟨name, lift_eq_ok.mpr (Quoted.text_eq_ok_iff.mpr hkey), ?_⟩
    rw [find?_field]
    rcases hrest with ⟨slot, hfind, hseen, content, hstands, h⟩ | ⟨hfind, h⟩
    · rw [hfind]
      dsimp only [Option.map]
      rw [if_neg (by simpa using hseen)]
      exact bind_eq_ok.mpr ⟨_, Slot.decode_field_eq_ok_iff.mpr ⟨hskip, content, hstands, rfl⟩, h⟩
    · rw [hfind]
      exact bind_eq_ok.mpr ⟨(), lift_eq_ok.mpr hskip, h⟩

/-- What some members make of a record, and of the names that were there before. -/
structure Taken (slots : List (Slot α)) (seen : List String) (record : α)
    (members : List (Quoted × Node)) (result : α) (seen' : List String) : Prop where
  clean : ∀ member ∈ members, member.1.cut = none ∧ member.2.skip = .ok ()
  names : ∀ member ∈ members, ∃ name, Named name member
  holds : ∀ member ∈ members, ∀ slot ∈ slots, Named slot.name member →
    slot.Stands member.2 (slot.get result)
  once : members.Pairwise fun first second => ∀ slot ∈ slots,
    Named slot.name first → ¬Named slot.name second
  fresh : ∀ member ∈ members, ∀ slot ∈ slots, Named slot.name member → slot.name ∉ seen
  kept : ∀ slot ∈ slots, (∀ member ∈ members, ¬Named slot.name member) →
    slot.get result = slot.get record
  seen : ∀ slot ∈ slots, slot.name ∈ seen' ↔
    slot.name ∈ seen ∨ ∃ member ∈ members, Named slot.name member

namespace Taken

theorem nil (slots : List (Slot α)) (seen : List String) (record : α) :
    Taken slots seen record [] record seen where
  clean := List.forall_mem_nil _
  names := List.forall_mem_nil _
  holds := List.forall_mem_nil _
  once := .nil
  fresh := List.forall_mem_nil _
  kept _ _ _ := rfl
  seen _ _ := by simp

/-- A member that is no field of the record. -/
theorem unknown (h : Taken slots seen record members result seen') (hkey : key.StandsFor name)
    (hskip : node.skip = .ok ()) (hfind : slots.find? (·.name == name) = none) :
    Taken slots seen record ((key, node) :: members) result seen' := by
  have hnone (slot : Slot α) (hslot : slot ∈ slots) : ¬Named slot.name (key, node) := fun hnamed =>
    name_ne_of_find? hfind hslot (hnamed.unique hkey)
  exact {
    clean := List.forall_mem_cons.mpr ⟨⟨hkey.cut, hskip⟩, h.clean⟩
    names := List.forall_mem_cons.mpr ⟨⟨name, hkey⟩, h.names⟩
    holds := List.forall_mem_cons.mpr
      ⟨fun slot hslot hnamed => (hnone slot hslot hnamed).elim, h.holds⟩
    once := .cons (fun _ _ slot hslot hnamed => (hnone slot hslot hnamed).elim) h.once
    fresh := List.forall_mem_cons.mpr
      ⟨fun slot hslot hnamed => (hnone slot hslot hnamed).elim, h.fresh⟩
    kept := fun slot hslot hall => h.kept slot hslot (List.forall_mem_cons.mp hall).2
    seen := fun slot hslot => by
      rw [h.seen slot hslot]
      simp [hnone slot hslot] }

/-- A member that is a field of the record, which was not there before. -/
theorem known (hslots : slots.Pairwise Slot.Apart) {content : slot.Content}
    (h : Taken slots (name :: seen) (slot.set content record) members result seen')
    (hkey : key.StandsFor name) (hskip : node.skip = .ok ())
    (hfind : slots.find? (·.name == name) = some slot) (hseen : name ∉ seen)
    (hstands : slot.Stands node content) :
    Taken slots seen record ((key, node) :: members) result seen' := by
  obtain ⟨hslot, rfl⟩ := name_of_find? hfind
  have hself (slot' : Slot α) (hslot' : slot' ∈ slots) (hnamed : Named slot'.name (key, node)) :
      slot' = slot := eq_of_name hslots hslot' hslot (hnamed.unique hkey)
  have hlater : ∀ member ∈ members, ¬Named slot.name member := fun member hmember hnamed =>
    h.fresh member hmember slot hslot hnamed List.mem_cons_self
  exact {
    clean := List.forall_mem_cons.mpr ⟨⟨hkey.cut, hskip⟩, h.clean⟩
    names := List.forall_mem_cons.mpr ⟨⟨slot.name, hkey⟩, h.names⟩
    holds := List.forall_mem_cons.mpr ⟨fun slot' hslot' hnamed => by
      obtain rfl := hself slot' hslot' hnamed
      rw [h.kept slot' hslot hlater, slot'.get_set]
      exact hstands, h.holds⟩
    once := .cons (fun member hmember slot' hslot' hnamed => by
      obtain rfl := hself slot' hslot' hnamed
      exact hlater member hmember) h.once
    fresh := List.forall_mem_cons.mpr ⟨fun slot' hslot' hnamed => by
      obtain rfl := hself slot' hslot' hnamed
      exact hseen, fun member hmember slot' hslot' hnamed hmem =>
        h.fresh member hmember slot' hslot' hnamed (List.mem_cons_of_mem _ hmem)⟩
    kept := fun slot' hslot' hall => by
      obtain ⟨hfirst, hothers⟩ := List.forall_mem_cons.mp hall
      have hne : slot' ≠ slot := fun heq => hfirst (heq ▸ hkey)
      rw [h.kept slot' hslot' hothers]
      exact (apart_of_mem hslots hslot' hslot hne).get content record
    seen := fun slot' hslot' => by
      have hfirst : Named slot'.name (key, node) ↔ slot'.name = slot.name :=
        ⟨fun hnamed => hnamed.unique hkey, fun heq => heq ▸ hkey⟩
      rw [h.seen slot' hslot']
      simp only [List.mem_cons, exists_eq_or_imp, hfirst]
      tauto }

end Taken

/-- What decoding the members of an object does. -/
theorem taken_of_decodeMembers (hslots : slots.Pairwise Slot.Apart)
    (h : decodeMembers (slots.map Slot.field) seen record members = .ok (result, seen')) :
    Taken slots seen record members result seen' := by
  induction members generalizing seen record with
  | nil =>
    obtain ⟨rfl, rfl⟩ := Prod.mk.inj (Except.ok.inj h)
    exact .nil slots seen record
  | cons member members ih =>
    obtain ⟨name, hkey, hskip, hrest⟩ := decodeMembers_cons_eq_ok_iff.mp h
    rcases hrest with ⟨slot, hfind, hseen, content, hstands, h⟩ | ⟨hfind, h⟩
    · exact (ih h).known hslots hkey hskip hfind hseen hstands
    · exact (ih h).unknown hkey hskip hfind

/-- Members of which each is a field that was not there before, or none, are decoded. -/
theorem exists_decodeMembers (seen : List String) (record : α)
    (hclean : ∀ member ∈ members, member.2.skip = .ok ())
    (hnames : ∀ member ∈ members, ∃ name, Named name member)
    (hholds : ∀ member ∈ members, ∀ slot ∈ slots, Named slot.name member →
      ∃ content, slot.Stands member.2 content)
    (honce : members.Pairwise fun first second => ∀ slot ∈ slots,
      Named slot.name first → ¬Named slot.name second)
    (hfresh : ∀ member ∈ members, ∀ slot ∈ slots, Named slot.name member → slot.name ∉ seen) :
    ∃ result seen',
      decodeMembers (slots.map Slot.field) seen record members = .ok (result, seen') := by
  induction members generalizing seen record with
  | nil => exact ⟨record, seen, rfl⟩
  | cons member members ih =>
    obtain ⟨hskip, hclean⟩ := List.forall_mem_cons.mp hclean
    obtain ⟨⟨name, hkey⟩, hnames⟩ := List.forall_mem_cons.mp hnames
    obtain ⟨hholds, hothers⟩ := List.forall_mem_cons.mp hholds
    obtain ⟨hlater, honce⟩ := List.pairwise_cons.mp honce
    obtain ⟨hseen, hfresh⟩ := List.forall_mem_cons.mp hfresh
    cases hfind : slots.find? (·.name == name) with
    | none =>
      obtain ⟨result, seen', h⟩ := ih seen record hclean hnames hothers honce hfresh
      exact ⟨result, seen', decodeMembers_cons_eq_ok_iff.mpr
        ⟨name, hkey, hskip, Or.inr ⟨hfind, h⟩⟩⟩
    | some slot =>
      obtain ⟨hslot, rfl⟩ := name_of_find? hfind
      obtain ⟨content, hstands⟩ := hholds slot hslot hkey
      obtain ⟨result, seen', h⟩ := ih (slot.name :: seen) (slot.set content record) hclean hnames
        hothers honce fun member hmember slot' hslot' hnamed hmem => by
          rcases List.mem_cons.mp hmem with heq | hmem
          · exact hlater member hmember slot hslot hkey (heq ▸ hnamed)
          · exact hfresh member hmember slot' hslot' hnamed hmem
      exact ⟨result, seen', decodeMembers_cons_eq_ok_iff.mpr ⟨slot.name, hkey, hskip,
        Or.inl ⟨slot, hfind, hseen slot hslot hkey, content, hstands, h⟩⟩⟩

/-! ### Items -/

/-- The items of an array do not touch a field that is apart from theirs. -/
theorem get_decodeItems (hapart : ∀ slot' ∈ slots, slot.Apart slot')
    (h : decodeItems record (slots.map Slot.field) items = .ok result) :
    slot.get result = slot.get record := by
  induction slots generalizing record items with
  | nil => rw [← Except.ok.inj h]
  | cons first slots ih =>
    obtain ⟨hfirst, hothers⟩ := List.forall_mem_cons.mp hapart
    cases items with
    | nil => rw [← Except.ok.inj h]
    | cons node items =>
      obtain ⟨set, hset, h⟩ := bind_eq_ok.mp h
      obtain ⟨-, content, -, rfl⟩ := Slot.decode_field_eq_ok_iff.mp hset
      rw [ih hothers h]
      exact hfirst.get content record

/-- What decoding the items of an array does. -/
theorem holds_of_decodeItems (hslots : slots.Pairwise Slot.Apart)
    (hshort : items.length ≤ slots.length)
    (h : decodeItems record (slots.map Slot.field) items = .ok result) :
    (∀ node ∈ items, node.skip = .ok ()) ∧
      List.Forall₂ (fun slot node => slot.Stands node (slot.get result))
        (slots.take items.length) items ∧
      ∀ slot ∈ slots.drop items.length, slot.get result = slot.get record := by
  induction slots generalizing record items with
  | nil =>
    obtain rfl := List.eq_nil_of_length_eq_zero (Nat.le_zero.mp hshort)
    exact ⟨List.forall_mem_nil _, .nil, List.forall_mem_nil _⟩
  | cons slot slots ih =>
    obtain ⟨hfirst, hothers⟩ := List.pairwise_cons.mp hslots
    cases items with
    | nil =>
      obtain rfl := Except.ok.inj h
      exact ⟨List.forall_mem_nil _, .nil, fun _ _ => rfl⟩
    | cons node items =>
      obtain ⟨set, hset, h⟩ := bind_eq_ok.mp h
      obtain ⟨hskip, content, hstands, rfl⟩ := Slot.decode_field_eq_ok_iff.mp hset
      obtain ⟨hclean, hholds, hkept⟩ := ih hothers (Nat.le_of_succ_le_succ hshort) h
      refine ⟨List.forall_mem_cons.mpr ⟨hskip, hclean⟩, .cons ?_ hholds, fun slot' hslot' => ?_⟩
      · rw [get_decodeItems hfirst h, slot.get_set]
        exact hstands
      · rw [hkept slot' hslot']
        exact (hfirst slot' (List.mem_of_mem_drop hslot')).get' content record

/-- Items that stand for the first fields of a record are decoded to these. -/
theorem exists_decodeItems (record : α) (hslots : slots.Pairwise Slot.Apart)
    (hclean : ∀ node ∈ items, node.skip = .ok ())
    (hholds : List.Forall₂ (fun slot node => slot.Stands node (slot.get a))
      (slots.take items.length) items) :
    ∃ result, decodeItems record (slots.map Slot.field) items = .ok result ∧
      ∀ slot ∈ slots.take items.length, slot.get result = slot.get a := by
  induction slots generalizing record items with
  | nil => exact ⟨record, rfl, by simp⟩
  | cons slot slots ih =>
    obtain ⟨hfirst, hothers⟩ := List.pairwise_cons.mp hslots
    cases items with
    | nil => exact ⟨record, rfl, List.forall_mem_nil _⟩
    | cons node items =>
      obtain ⟨hskip, hclean⟩ := List.forall_mem_cons.mp hclean
      obtain ⟨hstands, hholds⟩ := List.forall₂_cons.mp hholds
      obtain ⟨result, hresult, hequal⟩ := ih (slot.set (slot.get a) record) hothers hclean hholds
      refine ⟨result, bind_eq_ok.mpr ⟨_, Slot.decode_field_eq_ok_iff.mpr
        ⟨hskip, slot.get a, hstands, rfl⟩, hresult⟩, List.forall_mem_cons.mpr ⟨?_, hequal⟩⟩
      rw [get_decodeItems hfirst hresult, slot.get_set]

/-! ### Records -/

theorem map_field_drop_any (slots : List (Slot α)) (n : Nat) :
    (((slots.map Slot.field).drop n).any (·.required)) = false ↔
      ∀ slot ∈ slots.drop n, slot.required = false := by
  rw [← List.map_drop, List.any_map, List.any_eq_false]
  simp only [Bool.not_eq_true]
  rfl

theorem missing_eq_none_iff : (slots.map Slot.field).find?
      (fun field => field.required && !seen.contains field.name) = none ↔
    ∀ slot ∈ slots, slot.required = true → slot.name ∈ seen := by
  rw [List.find?_eq_none, List.forall_mem_map]
  refine forall₂_congr fun slot _ => ?_
  change ¬(slot.required && !seen.contains slot.name) = true ↔ _
  cases slot.required <;> simp

/-- What the members make of the record that one begins with, they present. -/
theorem Taken.presents (h : Taken slots [] init members result seen)
    (hmissing : ∀ slot ∈ slots, slot.required = true → slot.name ∈ seen) :
    PresentsMembers slots init result members where
  names := h.names
  holds := h.holds
  once := h.once
  leftOut slot hslot hnone := by
    refine ⟨Bool.eq_false_iff.mpr fun hrequired => ?_, h.kept slot hslot hnone⟩
    rcases (h.seen slot hslot).mp (hmissing slot hslot hrequired) with
      hmem | ⟨member, hmember, hnamed⟩
    · cases hmem
    · exact hnone member hmember hnamed

/-- What the members make of the record that one begins with is all that they present. -/
theorem Taken.eq_of_presents (hslots : Independent slots)
    (h : Taken slots [] init members result seen) (ha : PresentsMembers slots init a members) :
    result = a := by
  refine hslots.ext result a fun slot hslot => ?_
  by_cases hnamed : ∃ member ∈ members, Named slot.name member
  case pos =>
    obtain ⟨member, hmember, hnamed⟩ := hnamed
    exact slot.stands_unique (h.clean member hmember).2 (h.holds member hmember slot hslot hnamed)
      (ha.holds member hmember slot hslot hnamed)
  case neg =>
    have hnone : ∀ member ∈ members, ¬Named slot.name member := by simpa using hnamed
    rw [h.kept slot hslot hnone, (ha.leftOut slot hslot hnone).2]

/-- **Decoding an object** gives the record that the members present. -/
theorem decodeRecord_object_eq_ok_iff (hslots : Independent slots) {origin : Origin} {title : String}
    {cut : Option Fault} :
    decodeRecord origin title (slots.map Slot.field) init (.object members cut) = .ok a ↔
      (Node.object members cut).skip = .ok () ∧ cut = none ∧ PresentsMembers slots init a members := by
  rw [Node.skip_object]
  constructor
  · intro h
    obtain ⟨⟨record, seen⟩, hmembers, h⟩ := bind_eq_ok.mp h
    obtain ⟨⟨⟩, hcut, h⟩ := bind_eq_ok.mp h
    obtain rfl := Node.checkEnd_eq_ok.mp (lift_eq_ok.mp hcut)
    have htaken := taken_of_decodeMembers hslots.apart hmembers
    dsimp only at h
    split at h
    case h_1 => cases h
    case h_2 hmissing =>
      obtain rfl := Except.ok.inj h
      exact ⟨⟨htaken.clean, rfl⟩, rfl, htaken.presents (missing_eq_none_iff.mp hmissing)⟩
  · rintro ⟨⟨hclean, -⟩, rfl, h⟩
    obtain ⟨result, seen, hmembers⟩ := exists_decodeMembers [] init
      (fun member hmember => (hclean member hmember).2) h.names
      (fun member hmember slot hslot hnamed => ⟨_, h.holds member hmember slot hslot hnamed⟩) h.once
      fun _ _ _ _ _ => List.not_mem_nil
    have htaken := taken_of_decodeMembers hslots.apart hmembers
    obtain rfl := htaken.eq_of_presents hslots h
    have hmissing : (slots.map Slot.field).find?
        (fun field => field.required && !seen.contains field.name) = none := by
      refine missing_eq_none_iff.mpr fun slot hslot hrequired => ?_
      by_contra hseen
      have hnone : ∀ member ∈ members, ¬Named slot.name member := fun member hmember hnamed =>
        hseen ((htaken.seen slot hslot).mpr (Or.inr ⟨member, hmember, hnamed⟩))
      cases hrequired.symm.trans (h.leftOut slot hslot hnone).1
    refine bind_eq_ok.mpr ⟨(result, seen), hmembers, bind_eq_ok.mpr ⟨(), rfl, ?_⟩⟩
    rw [hmissing]
    rfl

/-- **Decoding an array** gives the record that the items present. -/
theorem decodeRecord_array_eq_ok_iff (hslots : Independent slots) {origin : Origin} {title : String}
    {cut : Option Fault} :
    decodeRecord origin title (slots.map Slot.field) init (.array items cut) = .ok a ↔
      (Node.array items cut).skip = .ok () ∧ cut = none ∧ PresentsItems slots init a items := by
  rw [Node.skip_array]
  constructor
  · intro h
    obtain ⟨record, hitems, h⟩ := bind_eq_ok.mp h
    rw [List.length_map] at h
    split at h
    case isTrue => cases h
    case isFalse hshort =>
      obtain ⟨⟨⟩, hcut, h⟩ := bind_eq_ok.mp h
      obtain rfl := Node.checkEnd_eq_ok.mp (lift_eq_ok.mp hcut)
      split at h
      case isTrue => cases h
      case isFalse hrequired =>
        obtain rfl := Except.ok.inj h
        obtain ⟨hclean, hholds, hkept⟩ :=
          holds_of_decodeItems hslots.apart (Nat.le_of_not_lt hshort) hitems
        have hleftOut := (map_field_drop_any slots items.length).mp (eq_false_of_ne_true hrequired)
        exact ⟨⟨hclean, rfl⟩, rfl, Nat.le_of_not_lt hshort, hholds,
          fun slot hslot => ⟨hleftOut slot hslot, hkept slot hslot⟩⟩
  · rintro ⟨⟨hclean, -⟩, rfl, h⟩
    obtain ⟨result, hitems, hequal⟩ := exists_decodeItems init hslots.apart hclean h.holds
    obtain ⟨-, -, hkept⟩ := holds_of_decodeItems hslots.apart h.short hitems
    have hresult : result = a := by
      refine hslots.ext result a fun slot hslot => ?_
      rw [← List.take_append_drop items.length slots] at hslot
      rcases List.mem_append.mp hslot with hslot | hslot
      · exact hequal slot hslot
      · rw [hkept slot hslot, (h.leftOut slot hslot).2]
    subst hresult
    refine bind_eq_ok.mpr ⟨result, hitems, ?_⟩
    rw [List.length_map, if_neg (Nat.not_lt.mpr h.short)]
    refine bind_eq_ok.mpr ⟨(), rfl, ?_⟩
    rw [(map_field_drop_any slots items.length).mpr fun slot hslot => (h.leftOut slot hslot).1]
    rfl

/-- **Decoding a record** gives the one that a shape without faults presents. -/
theorem decodeRecord_eq_ok_iff (hslots : Independent slots) {origin : Origin} {title : String} :
    decodeRecord origin title (slots.map Slot.field) init node = .ok a ↔
      node.skip = .ok () ∧ Presents slots init a node := by
  cases node with
  | object members cut =>
    rw [decodeRecord_object_eq_ok_iff hslots]
    refine and_congr_right fun _ => ⟨?_, ?_⟩
    · rintro ⟨rfl, h⟩
      exact .object h
    · rintro ⟨h⟩
      exact ⟨rfl, h⟩
  | array items cut =>
    rw [decodeRecord_array_eq_ok_iff hslots]
    refine and_congr_right fun _ => ⟨?_, ?_⟩
    · rintro ⟨rfl, h⟩
      exact .array h
    · rintro (_ | ⟨h⟩)
      exact ⟨rfl, h⟩
  | _ => exact iff_of_false (Node.mismatch_ne_ok _ _) fun h => nomatch h.2

end RecordField

/-! ### What is refused -/

/-- The shapes that are no record: what is neither an object nor an array, an object without a
required field or with a field twice, an array that is too short or too long, and either with
something that is not of the type of its field. -/
inductive Refused (slots : List (Slot α)) : Node → Prop where
  | neither {node : Node} (hobject : ∀ members cut, node ≠ .object members cut)
      (harray : ∀ items cut, node ≠ .array items cut) : Refused slots node
  | missing {slot : Slot α} {members : List (Quoted × Node)} {cut : Option Fault}
      (hslot : slot ∈ slots) (hrequired : slot.required = true)
      (h : ∀ member ∈ members, ¬Named slot.name member) : Refused slots (.object members cut)
  | twice {slot : Slot α} {before between after : List (Quoted × Node)} {first second : Quoted × Node}
      {cut : Option Fault} (hslot : slot ∈ slots) (hfirst : Named slot.name first)
      (hsecond : Named slot.name second) :
      Refused slots (.object (before ++ first :: (between ++ second :: after)) cut)
  | member {slot : Slot α} {members : List (Quoted × Node)} {member : Quoted × Node}
      {cut : Option Fault} (hslot : slot ∈ slots) (hmember : member ∈ members)
      (hnamed : Named slot.name member) (h : slot.Misfit member.2) :
      Refused slots (.object members cut)
  | short {slot : Slot α} {i : Nat} {items : List Node} {cut : Option Fault}
      (hslot : slots[i]? = some slot) (hrequired : slot.required = true) (h : items.length ≤ i) :
      Refused slots (.array items cut)
  | long {items : List Node} {cut : Option Fault} (h : slots.length < items.length) :
      Refused slots (.array items cut)
  | item {slot : Slot α} {i : Nat} {items : List Node} {node : Node} {cut : Option Fault}
      (hslot : slots[i]? = some slot) (hitem : items[i]? = some node) (h : slot.Misfit node) :
      Refused slots (.array items cut)

section

variable {slots : List (Slot α)} {init a : α} {node : Node}

theorem mem_drop_of_getElem? {slot : Slot α} {i n : Nat} (h : slots[i]? = some slot) (hle : n ≤ i) :
    slot ∈ slots.drop n := by
  refine List.mem_of_getElem? (i := i - n) ?_
  rw [List.getElem?_drop, Nat.add_sub_cancel' hle, h]

theorem holds_of_getElem? {r : Slot α → Node → Prop} {items : List Node}
    (h : List.Forall₂ r (slots.take items.length) items) {slot : Slot α} {i : Nat}
    (hslot : slots[i]? = some slot) (hitem : items[i]? = some node) : r slot node := by
  induction items generalizing slots i with
  | nil => cases hitem
  | cons first items ih =>
    cases slots with
    | nil => cases hslot
    | cons slot' slots =>
      obtain ⟨hfirst, hothers⟩ := List.forall₂_cons.mp h
      cases i with
      | zero =>
        obtain rfl := Option.some.inj hslot
        obtain rfl := Option.some.inj hitem
        exact hfirst
      | succ i => exact ih hothers hslot hitem

/-- What is refused presents no record. -/
theorem Refused.not_presents (h : Refused slots node) : ¬Presents slots init a node := by
  intro hpresents
  cases hpresents with
  | object hmembers =>
    cases h with
    | neither hobject _ => exact hobject _ _ rfl
    | missing hslot hrequired hnone =>
      cases hrequired.symm.trans (hmembers.leftOut _ hslot hnone).1
    | @twice slot before between after first second _ hslot hfirst hsecond =>
      have honce := (List.pairwise_append.mp hmembers.once).2.1
      have hlater := (List.pairwise_cons.mp honce).1 second
        (List.mem_append_right _ List.mem_cons_self)
      exact hlater slot hslot hfirst hsecond
    | member hslot hmember hnamed h =>
      exact Slot.not_stands _ h (hmembers.holds _ hmember _ hslot hnamed)
  | array hitems =>
    cases h with
    | neither _ harray => exact harray _ _ rfl
    | short hslot hrequired hle =>
      cases hrequired.symm.trans (hitems.leftOut _ (mem_drop_of_getElem? hslot hle)).1
    | long hlong => exact Nat.not_lt.mpr hitems.short hlong
    | item hslot hitem h => exact Slot.not_stands _ h (holds_of_getElem? hitems.holds hslot hitem)

end

end ArchFacts.Json
