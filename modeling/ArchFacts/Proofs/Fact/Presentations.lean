import ArchFacts.Fact.Decoder
import ArchFacts.Proofs.Fact.RoundTrip
import ArchFacts.Proofs.Json.Presentations
import ArchFacts.Proofs.Json.Recognition

/-!
# Every way of writing a fact

The fields of a relation and of a fact, each with the shapes that stand for what it holds. They are
independent of one another, so what is said of records in general is said of these: a fact is read
from the texts of the shapes that present it, and from no other text (`Fact.read_eq_ok_iff`). Space,
the order of members, members that are not known, escapes and what is left out are all free in them.
-/

namespace ArchFacts

open Json

/-! ### Fields -/

/-- A field that is a text. -/
def Json.Slot.text {α : Type} (name : String) (get : α → String) (set : String → α → α)
    (get_set : ∀ s a, get (set s a) = s) : Slot α where
  name := name
  required := false
  Content := String
  get := get
  set := set
  decode := Node.decodeString
  Stands := Node.IsText
  Misfit := Node.NoText
  get_set := get_set
  decode_eq_ok_iff := decodeString_eq_ok_iff
  not_stands h := not_isText h

/-- A text that is wrapped up, as a kind is. -/
theorem Json.map_decodeString_eq_ok_iff {β : Type} {wrap : String → β} {unwrap : β → String}
    (hwrap : ∀ b, wrap (unwrap b) = b) (hunwrap : ∀ s, unwrap (wrap s) = s) {node : Node} {b : β} :
    node.decodeString.map wrap = .ok b ↔ node.skip = .ok () ∧ node.IsText (unwrap b) := by
  rw [map_eq_ok, ← decodeString_eq_ok_iff]
  constructor
  · rintro ⟨s, hs, rfl⟩
    rwa [hunwrap]
  · exact fun h => ⟨unwrap b, h, hwrap b⟩

/-- The kind of a record. -/
def Json.Slot.kind {α Kind : Type} (wrap : String → Kind) (word : Kind → String)
    (hwrap : ∀ kind, wrap (word kind) = kind) (hword : ∀ s, word (wrap s) = s) (get : α → Kind)
    (set : Kind → α → α) (get_set : ∀ kind a, get (set kind a) = kind) : Slot α where
  name := "kind"
  required := true
  Content := Kind
  get := get
  set := set
  decode node := node.decodeString.map wrap
  Stands node kind := node.IsText (word kind)
  Misfit := Node.NoText
  get_set := get_set
  decode_eq_ok_iff := map_decodeString_eq_ok_iff hwrap hword
  not_stands h := not_isText h

namespace Relation

/-- The fields of a relation. -/
def slots : List (Slot Relation) :=
  [.kind RelationKind.mk RelationKind.word (fun _ => rfl) (fun _ => rfl) Relation.kind
     (fun kind r => { r with kind }) fun _ _ => rfl,
   { Slot.text "target" Relation.target (fun target r => { r with target }) fun _ _ => rfl with
     required := true }]

theorem fields_eq : fields = slots.map Slot.field := rfl

theorem independent_slots : Independent slots where
  apart := by
    refine .cons (List.forall_mem_singleton.mpr ?_) (.cons (List.forall_mem_nil _) .nil)
    exact ⟨by decide, fun _ _ => rfl, fun _ _ => rfl⟩
  ext a b h := by
    have hkind : a.kind = b.kind := h _ (.head _)
    have htarget : a.target = b.target := h _ (.tail _ (.head _))
    rw [Relation.mk.injEq]
    exact ⟨hkind, htarget⟩

/-- A shape of a relation: an object, or the array of its kind and its target. -/
def Presented (node : Node) (r : Relation) : Prop := Presents slots ⟨⟨""⟩, ""⟩ r node

/-- A shape that is no relation: something else than two texts, in either form. -/
def Refused (node : Node) : Prop := Json.Refused slots node

theorem decode_eq_ok_iff (origin : Origin) (node : Node) (r : Relation) :
    Relation.decode origin node = .ok r ↔ node.skip = .ok () ∧ Presented node r := by
  rw [Relation.decode, fields_eq]
  exact RecordField.decodeRecord_eq_ok_iff independent_slots

end Relation

namespace Fact

theorem decodeLine_eq_ok_iff {node : Node} {line : UInt32} :
    decodeLine node = .ok line ↔ node.skip = .ok () ∧ node.IsNat line.toNat := by
  refine map_eq_ok.trans ?_
  constructor
  · rintro ⟨n, hn, rfl⟩
    obtain ⟨hskip, hnat, hlt⟩ := decodeUnsigned_eq_ok_iff.mp hn
    have hself : (UInt32.ofNat n).toNat = n := UInt32.toNat_ofNat_of_lt' hlt
    exact ⟨hskip, by rwa [hself]⟩
  · rintro ⟨hskip, hnat⟩
    exact ⟨line.toNat, decodeUnsigned_eq_ok_iff.mpr ⟨hskip, hnat, line.toNat_lt⟩, UInt32.ofNat_toNat⟩

/-- The fields of a fact. -/
def slots (origin : Origin) : List (Slot Fact) :=
  [.kind FactKind.mk FactKind.word (fun _ => rfl) (fun _ => rfl) Fact.kind
     (fun kind f => { f with kind }) fun _ _ => rfl,
   .text "name" Fact.name (fun name f => { f with name }) fun _ _ => rfl,
   .text "file" Fact.file (fun file f => { f with file }) fun _ _ => rfl,
   { name := "line"
     required := false
     Content := UInt32
     get := Fact.line
     set := fun line f => { f with line }
     decode := decodeLine
     Stands := fun node line => node.IsNat line.toNat
     Misfit := Node.NoNat UInt32.size
     get_set := fun _ _ => rfl
     decode_eq_ok_iff := decodeLine_eq_ok_iff
     not_stands := fun {_ line} h => not_isNat h line.toNat_lt },
   .text "repo" Fact.repo (fun repo f => { f with repo }) fun _ _ => rfl,
   { name := "props"
     required := false
     Content := Fields Value
     get := Fact.props
     set := fun props f => { f with props }
     decode := Node.decodeTable propDepth
     Stands := Node.IsTable propDepth
     Misfit := Node.NoTable
     get_set := fun _ _ => rfl
     decode_eq_ok_iff := decodeTable_eq_ok_iff
     not_stands := fun h => not_isTable h },
   { name := "relations"
     required := false
     Content := List Relation
     get := Fact.relations
     set := fun relations f => { f with relations }
     decode := Node.decodeList (Relation.decode origin)
     Stands := Node.IsList Relation.Presented
     Misfit := Node.NoList Relation.Refused
     get_set := fun _ _ => rfl
     decode_eq_ok_iff := decodeList_eq_ok_iff (Relation.decode_eq_ok_iff origin)
     not_stands := fun h => not_isList (fun _ _ hrefused => hrefused.not_presents) h }]

theorem fields_eq (origin : Origin) : fields origin = (slots origin).map Slot.field := rfl

theorem independent_slots (origin : Origin) : Independent (slots origin) where
  apart := by
    -- every pair of fields differs in the name, and each is set without touching the other
    repeat' first
      | exact List.Pairwise.nil
      | refine List.Pairwise.cons ?_ ?_
      | exact List.forall_mem_nil _
      | refine List.forall_mem_cons.mpr ⟨?_, ?_⟩
      | exact ⟨by dsimp only [Slot.text]; decide, fun _ _ => rfl, fun _ _ => rfl⟩
  ext a b h := by
    simp only [slots, List.forall_mem_cons] at h
    obtain ⟨hkind, hname, hfile, hline, hrepo, hprops, hrelations, -⟩ := h
    rw [Fact.mk.injEq]
    exact ⟨hkind, hname, hfile, hline, hrepo, hprops, hrelations⟩

/-- A shape of a fact: an object, or an array of its first fields. -/
def Presented (node : Node) (f : Fact) : Prop := Presents (slots .text) (Fact.of ⟨""⟩ "") f node

/-- A shape that is no fact, or a fact with something that is no relation among its relations. -/
def Refused (node : Node) : Prop := Json.Refused (slots .text) node

theorem decode_eq_ok_iff (node : Node) (f : Fact) :
    Fact.decode .text node = .ok f ↔ node.skip = .ok () ∧ Presented node f := by
  rw [Fact.decode, fields_eq]
  exact RecordField.decodeRecord_eq_ok_iff (independent_slots .text)

/-! ### Reading -/

/-- A fact is read from the texts of the shapes that present it. -/
theorem read_eq_ok_iff {text : List Char} {f : Fact} :
    Fact.read text = .ok f ↔ ∃ node, Writing text node ∧ Presented node f :=
  readWhole_eq_ok_iff decode_eq_ok_iff

/-- The text that a fact is written as is one of them. -/
theorem Writable.presented {f : Fact} (h : f.Writable) :
    ∃ node, Writing f.write node ∧ Presented node f :=
  read_eq_ok_iff.mp (read_write h)

/-- **Reading a fact** takes every text of a shape that presents it, and no other text: none of a
shape that is refused. -/
theorem read_presentations :
    (∀ text f, Fact.read text = .ok f ↔ ∃ node, Writing text node ∧ Presented node f) ∧
      ∀ text node, Writing text node → Refused node → ∀ f, Fact.read text ≠ .ok f := by
  refine ⟨fun _ _ => read_eq_ok_iff, fun text node hwriting hrefused f hread => ?_⟩
  obtain ⟨node', hwriting', hpresented⟩ := read_eq_ok_iff.mp hread
  obtain rfl := hwriting.unique hwriting'
  exact hrefused.not_presents hpresented

/-- A module without a name: an object with an escape, some space, and a member that is not known and
stands there twice. -/
def scattered : List Char := "\x7b\"x\":[], \"kind\":\"\\u006dodule\",\"x\":0\x7d".toList

/-- The scattered module is read, one that has `null` for its name is not. -/
theorem read_presentations_scattered :
    Fact.read scattered = .ok (Fact.of .codeModule "") ∧
      ∀ f, Fact.read "[\"module\",null]".toList ≠ .ok f := by
  let kind : Quoted := ⟨[.unit 0x6d, .char 'o', .char 'd', .char 'u', .char 'l', .char 'e'], none⟩
  let unknown : Quoted := .ofString "x"
  let node : Node := .object [(unknown, .array [] none), (.ofString "kind", .string kind),
    (unknown, .number (.int 0))] none
  have hread : Node.ofText scattered = (node, []) := rfl
  have hskip : node.skip = .ok () := rfl
  have hdecode : Fact.decode .text node = .ok (Fact.of .codeModule "") := rfl
  have hpresented := ((decode_eq_ok_iff _ _).mp hdecode).2
  have hwriting := writing_of_ofText hread hskip
  let nameless : Node := .array [.string (.ofString "module"), .null] none
  have hnameless : Node.ofText "[\"module\",null]".toList = (nameless, []) := rfl
  have hnull : Node.NoText .null := fun _ h => by cases h
  have hrefused : Refused nameless := .item (i := 1) rfl rfl hnull
  have hnamelessWriting := writing_of_ofText hnameless rfl
  exact ⟨(read_presentations.1 _ _).mpr ⟨_, hwriting, hpresented⟩,
    read_presentations.2 _ _ hnamelessWriting hrefused⟩

end Fact

end ArchFacts
