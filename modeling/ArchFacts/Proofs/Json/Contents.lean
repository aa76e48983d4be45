import ArchFacts.Proofs.Json.Decoding
import ArchFacts.Proofs.Json.Meaning
import Mathlib.Data.List.Forall2

/-!
# What stands for the contents of a field

The shapes that a decoder takes for a string, a number, a table or a list, and what it makes of them.
Each decoder gives something if and only if the shape stands for it and has no fault in it. Beside
each of these are the shapes that are of another type.
-/

namespace ArchFacts.Json

/-- A shape that is a text. -/
def Node.IsText (node : Node) (s : String) : Prop := ∃ q, node = .string q ∧ q.StandsFor s

/-- A shape of another type than a text. -/
def Node.NoText (node : Node) : Prop := ∀ q, node ≠ .string q

/-- A shape that is a whole number. -/
def Node.IsNat (node : Node) (n : Nat) : Prop := node = .number (.int n)

/-- A shape of another type than a whole number below a bound: a number that is negative, too large,
or has a fraction or an exponent is among them. -/
def Node.NoNat (bound : Nat) (node : Node) : Prop := ∀ n < bound, node ≠ .number (.int n)

/-- A shape that is a table of values. -/
def Node.IsTable (room : Nat) (node : Node) (table : Fields Value) : Prop :=
  ∃ members pairs, node = .object members none ∧ MeansMembers room members pairs ∧
    table = Fields.ofPairs pairs

/-- A shape of another type than a table. -/
def Node.NoTable (node : Node) : Prop := ∀ members cut, node ≠ .object members cut

/-- A shape that is a list, item by item. -/
def Node.IsList {α : Type} (Stands : Node → α → Prop) (node : Node) (list : List α) : Prop :=
  ∃ items, node = .array items none ∧ List.Forall₂ Stands items list

/-- A shape of another type than a list, or a list with an item that is refused. -/
inductive Node.NoList (Refused : Node → Prop) : Node → Prop where
  | type {node : Node} (h : ∀ items cut, node ≠ .array items cut) : NoList Refused node
  | item {items : List Node} {cut : Option Fault} {node : Node} (hnode : node ∈ items)
      (h : Refused node) : NoList Refused (.array items cut)

variable {α : Type} {node : Node}

theorem lift_eq_ok {found : Except Fault α} {a : α} : Node.lift found = .ok a ↔ found = .ok a :=
  mapError_eq_ok

theorem decodeString_eq_ok_iff {s : String} :
    node.decodeString = .ok s ↔ node.skip = .ok () ∧ node.IsText s := by
  constructor
  · intro h
    unfold Node.decodeString at h
    split at h
    case h_1 q =>
      have hq := Quoted.text_eq_ok_iff.mp (lift_eq_ok.mp h)
      exact ⟨Node.checkEnd_eq_ok.mpr hq.cut, q, rfl, hq⟩
    case h_2 => exact absurd h (Node.mismatch_ne_ok _ _)
  · rintro ⟨-, q, rfl, hq⟩
    exact lift_eq_ok.mpr (Quoted.text_eq_ok_iff.mpr hq)

theorem decodeUnsigned_eq_ok_iff {bound n : Nat} {expected : String} :
    node.decodeUnsigned bound expected = .ok n ↔ node.skip = .ok () ∧ node.IsNat n ∧ n < bound := by
  constructor
  · intro h
    unfold Node.decodeUnsigned at h
    split at h
    case h_1 k =>
      split at h
      case isFalse => cases h
      case isTrue hk =>
        obtain rfl := Except.ok.inj h
        have hself : (k.toNat : Int) = k := Int.toNat_of_nonneg hk.1
        exact ⟨rfl, congrArg (Node.number ∘ Number.int) hself.symm, by omega⟩
    case h_2 => exact absurd h (Node.mismatch_ne_ok _ _)
  · rintro ⟨-, rfl, hn⟩
    exact decodeUnsigned_int hn expected

theorem decodeTable_eq_ok_iff {room : Nat} {table : Fields Value} :
    node.decodeTable room = .ok table ↔ node.skip = .ok () ∧ node.IsTable room table := by
  constructor
  · intro h
    unfold Node.decodeTable at h
    split at h
    case h_1 members cut =>
      obtain ⟨pairs, hpairs, h⟩ := bind_eq_ok.mp h
      obtain ⟨⟨⟩, hcut, h⟩ := bind_eq_ok.mp h
      obtain rfl := Node.checkEnd_eq_ok.mp (lift_eq_ok.mp hcut)
      obtain rfl := Except.ok.inj h
      have hmeans := Node.valueMembers_eq_ok_iff.mp (lift_eq_ok.mp hpairs)
      exact ⟨Node.skip_object.mpr ⟨Node.skip_of_meansMembers hmeans, rfl⟩,
        members, pairs, rfl, hmeans, rfl⟩
    case h_2 => exact absurd h (Node.mismatch_ne_ok _ _)
  · rintro ⟨-, members, pairs, rfl, hmeans, rfl⟩
    refine bind_eq_ok.mpr ⟨pairs, lift_eq_ok.mpr (Node.valueMembers_eq_ok_iff.mpr hmeans), rfl⟩

theorem not_isText (h : node.NoText) {s : String} : ¬node.IsText s := fun ⟨q, hq, _⟩ => h q hq

theorem not_isNat {bound n : Nat} (h : node.NoNat bound) (hn : n < bound) : ¬node.IsNat n := h n hn

theorem not_isTable {room : Nat} {table : Fields Value} (h : node.NoTable) :
    ¬node.IsTable room table := fun ⟨members, _, hnode, _⟩ => h members none hnode

theorem not_isList {Refused : Node → Prop} {Stands : Node → α → Prop}
    (hrefused : ∀ node a, Refused node → ¬Stands node a) (h : node.NoList Refused) {list : List α} :
    ¬node.IsList Stands list := by
  rintro ⟨items, rfl, hstands⟩
  cases h with
  | type h => exact h items none rfl
  | item hnode h =>
    obtain ⟨i, hi, rfl⟩ := List.getElem_of_mem hnode
    have hlength := hstands.length_eq
    exact hrefused _ _ h (hstands.get hi (hlength ▸ hi))

theorem mapM_eq_ok_iff {ε β : Type} {f : α → Except ε β} {as : List α} {bs : List β} :
    as.mapM f = .ok bs ↔ List.Forall₂ (fun a b => f a = .ok b) as bs := by
  induction as generalizing bs with
  | nil =>
    rw [List.mapM_nil, List.forall₂_nil_left_iff]
    exact ⟨fun h => (Except.ok.inj h).symm, fun h => h ▸ rfl⟩
  | cons a as ih =>
    rw [List.mapM_cons]
    constructor
    · intro h
      obtain ⟨b, hb, h⟩ := bind_eq_ok.mp h
      obtain ⟨bs, hbs, h⟩ := bind_eq_ok.mp h
      obtain rfl := Except.ok.inj h
      exact .cons hb (ih.mp hbs)
    · rintro (_ | ⟨hb, hbs⟩)
      exact bind_eq_ok.mpr ⟨_, hb, bind_eq_ok.mpr ⟨_, ih.mpr hbs, rfl⟩⟩

theorem decodeList_eq_ok_iff {decode : Node → Except DecodeError α} {Stands : Node → α → Prop}
    (hdecode : ∀ node a, decode node = .ok a ↔ node.skip = .ok () ∧ Stands node a) {list : List α} :
    node.decodeList decode = .ok list ↔ node.skip = .ok () ∧ node.IsList Stands list := by
  have hitems (items : List Node) : items.mapM decode = .ok list ↔
      (∀ node ∈ items, node.skip = .ok ()) ∧ List.Forall₂ Stands items list := by
    simp only [mapM_eq_ok_iff, hdecode, List.forall₂_and_left]
  constructor
  · intro h
    unfold Node.decodeList at h
    split at h
    case h_1 items cut =>
      obtain ⟨decoded, hdecoded, h⟩ := bind_eq_ok.mp h
      obtain ⟨⟨⟩, hcut, h⟩ := bind_eq_ok.mp h
      obtain rfl := Node.checkEnd_eq_ok.mp (lift_eq_ok.mp hcut)
      obtain rfl := Except.ok.inj h
      obtain ⟨hclean, hstands⟩ := (hitems items).mp hdecoded
      exact ⟨Node.skip_array.mpr ⟨hclean, rfl⟩, items, rfl, hstands⟩
    case h_2 => exact absurd h (Node.mismatch_ne_ok _ _)
  · rintro ⟨hskip, items, rfl, hstands⟩
    have hdecoded := (hitems items).mpr ⟨(Node.skip_array.mp hskip).1, hstands⟩
    exact bind_eq_ok.mpr ⟨list, hdecoded, rfl⟩

end ArchFacts.Json
