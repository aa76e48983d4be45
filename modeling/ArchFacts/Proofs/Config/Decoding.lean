import ArchFacts.Config.Decoder
import Mathlib.Data.List.Pairwise

/-!
# Decoding mappings

A record is decoded from a mapping part by part (`Setting.decode_eq_some_iff`): what no entry has
the key of is as in the record that one begins with, and what one entry has the key of is what its
value holds. A key stands at most once, and keys that are not known stand for nothing.
-/

namespace ArchFacts

open Yaml

variable {α : Type}

/-! ### Parts -/

/-- A part of a record, with the key that sets it. -/
structure Part (α : Type) where
  key : String
  Content : Type
  decode : Node → Option Content
  get : α → Content
  set : Content → α → α
  get_set : ∀ content a, get (set content a) = content

namespace Part

/-- The part as the decoder has it. -/
def setting (p : Part α) : Setting α := .of p.key p.decode p.set

/-- Two parts do not touch each other. -/
structure Apart (p q : Part α) : Prop where
  key : p.key ≠ q.key
  get : ∀ content a, p.get (q.set content a) = p.get a
  get' : ∀ content a, q.get (p.set content a) = q.get a

instance : Std.Symm (Part.Apart (α := α)) := ⟨fun _ _ h => ⟨h.key.symm, h.get', h.get⟩⟩

/-- Parts that do not touch each other and are all there is to a record. -/
structure Independent (parts : List (Part α)) : Prop where
  apart : parts.Pairwise Apart
  ext : ∀ a b, (∀ p ∈ parts, p.get a = p.get b) → a = b

variable {parts : List (Part α)} {p q : Part α} {key : String}

theorem key_of_find? (h : parts.find? (·.key == key) = some p) : p ∈ parts ∧ p.key = key := by
  have hkey : (p.key == key) = true := List.find?_some (p := fun p : Part α => p.key == key) h
  exact ⟨List.mem_of_find?_eq_some h, eq_of_beq hkey⟩

theorem key_ne_of_find? (h : parts.find? (·.key == key) = none) (hp : p ∈ parts) : p.key ≠ key :=
  fun hkey => List.find?_eq_none.mp h p hp (beq_iff_eq.mpr hkey)

end Part

/-! ### Entries -/

/-- The values of a key in a mapping. -/
def valuesOf (document : Node) (key : String) (entries : List (Node × Node)) : List Node :=
  entries.filterMap fun e => if Setting.textOf? document e.1 = some key then some e.2 else none

section

variable {document keyNode node : Node} {key other : String} {entries : List (Node × Node)}

theorem valuesOf_cons_self (h : Setting.textOf? document keyNode = some key) :
    valuesOf document key ((keyNode, node) :: entries) = node :: valuesOf document key entries := by
  simp [valuesOf, h]

theorem valuesOf_cons_of_ne (h : Setting.textOf? document keyNode = some key) (hne : other ≠ key) :
    valuesOf document other ((keyNode, node) :: entries) = valuesOf document other entries := by
  simp [valuesOf, h, hne.symm]

end

namespace Part

variable {document keyNode node : Node} {entries : List (Node × Node)} {p : Part α}
  {seen : List String} {key : String} {old new : p.Content}

/-- What the entries of a mapping make of a part. It stays as it is where no entry has its key, and
is set by the only one that has. It has not been set before if its key is not among those seen. -/
inductive Taken (p : Part α) (document : Node) (entries : List (Node × Node)) (seen : List String)
    (old : p.Content) : p.Content → Prop
  | leftOut (h : valuesOf document p.key entries = []) : Taken p document entries seen old old
  | set {node : Node} {new : p.Content} (hfresh : p.key ∉ seen)
      (h : valuesOf document p.key entries = [node]) (hnode : p.decode node = some new) :
      Taken p document entries seen old new

/-- Entries with the same values make the same of a part. -/
theorem taken_congr {entries' : List (Node × Node)} {seen' : List String}
    (h : valuesOf document p.key entries = valuesOf document p.key entries')
    (hseen : p.key ∈ seen ↔ p.key ∈ seen') :
    p.Taken document entries seen old new ↔ p.Taken document entries' seen' old new := by
  constructor
  · rintro (hnone | ⟨hfresh, hone, hnode⟩)
    · exact .leftOut (h ▸ hnone)
    · exact .set (mt hseen.mpr hfresh) (h ▸ hone) hnode
  · rintro (hnone | ⟨hfresh, hone, hnode⟩)
    · exact .leftOut (h ▸ hnone)
    · exact .set (mt hseen.mp hfresh) (h ▸ hone) hnode

theorem taken_nil : p.Taken document [] seen old new ↔ new = old := by
  constructor
  · rintro (hnone | ⟨-, hone, -⟩)
    · rfl
    · cases hone
  · rintro rfl
    exact .leftOut rfl

/-- The first entry with the key of a part is the only one. -/
theorem taken_cons_self (h : Setting.textOf? document keyNode = some p.key) :
    p.Taken document ((keyNode, node) :: entries) seen old new ↔
      p.key ∉ seen ∧ p.decode node = some new ∧ valuesOf document p.key entries = [] := by
  constructor
  · rintro (hnone | ⟨hfresh, hone, hnode⟩)
    · rw [valuesOf_cons_self h] at hnone
      cases hnone
    · rw [valuesOf_cons_self h] at hone
      obtain ⟨rfl, hrest⟩ := List.cons.inj hone
      exact ⟨hfresh, hnode, hrest⟩
  · rintro ⟨hfresh, hnode, hrest⟩
    exact .set hfresh (by rw [valuesOf_cons_self h, hrest]) hnode

/-- What has been set is not set again. -/
theorem taken_of_mem (h : p.key ∈ seen) : p.Taken document entries seen old new ↔
    valuesOf document p.key entries = [] ∧ new = old := by
  constructor
  · rintro (hnone | ⟨hfresh, -, -⟩)
    · exact ⟨hnone, rfl⟩
    · exact absurd h hfresh
  · rintro ⟨hnone, rfl⟩
    exact .leftOut hnone

end Part

namespace Setting

variable {document keyNode node : Node} {entries : List (Node × Node)} {parts : List (Part α)}
  {seen : List String} {record result : α}

theorem find?_setting (parts : List (Part α)) (key : String) :
    (parts.map Part.setting).find? (·.key == key) = (parts.find? (·.key == key)).map Part.setting :=
  List.find?_map ..

/-- One entry of a mapping: it sets a part that was not set before, or its key is not known. -/
theorem decodeEntries_cons_eq_some_iff :
    decodeEntries document (parts.map Part.setting) seen record ((keyNode, node) :: entries) =
        some result ↔
      ∃ key, textOf? document keyNode = some key ∧
        ((∃ p, parts.find? (·.key == key) = some p ∧ key ∉ seen ∧ ∃ content,
            p.decode node = some content ∧
              decodeEntries document (parts.map Part.setting) (key :: seen) (p.set content record)
                entries = some result) ∨
          parts.find? (·.key == key) = none ∧
            decodeEntries document (parts.map Part.setting) seen record entries = some result) := by
  rw [decodeEntries]
  refine Option.bind_eq_some_iff.trans (exists_congr fun key => and_congr_right fun _ => ?_)
  rw [find?_setting]
  cases hfind : parts.find? (·.key == key) with
  | none => simp
  | some p =>
    by_cases hseen : key ∈ seen
    · simp [hseen]
    · cases hnode : p.decode node <;> simp [Part.setting, Setting.of, hseen, hnode]

/-- **Entries are decoded part by part.** -/
theorem decodeEntries_eq_some_iff (h : Part.Independent parts) :
    decodeEntries document (parts.map Part.setting) seen record entries = some result ↔
      (∀ e ∈ entries, ∃ key, textOf? document e.1 = some key) ∧
        ∀ p ∈ parts, p.Taken document entries seen (p.get record) (p.get result) := by
  induction entries generalizing seen record with
  | nil =>
    constructor
    · intro hnil
      obtain rfl := Option.some.inj hnil
      exact ⟨List.forall_mem_nil _, fun p _ => .leftOut rfl⟩
    · rintro ⟨-, hparts⟩
      exact congrArg some (h.ext _ _ fun p hp => (Part.taken_nil.mp (hparts p hp)).symm)
  | cons e entries ih =>
    obtain ⟨keyNode, node⟩ := e
    rw [decodeEntries_cons_eq_some_iff, List.forall_mem_cons]
    constructor
    · rintro ⟨key, hkey, ⟨p, hfind, hfresh, content, hnode, hrest⟩ | ⟨hfind, hrest⟩⟩
      · obtain ⟨hp, rfl⟩ := Part.key_of_find? hfind
        obtain ⟨hkeys, hparts⟩ := ih.mp hrest
        refine ⟨⟨⟨p.key, hkey⟩, hkeys⟩, fun q hq => ?_⟩
        by_cases hpq : q = p
        · subst hpq
          obtain ⟨hnone, hget⟩ := (Part.taken_of_mem List.mem_cons_self).mp (hparts q hq)
          rw [q.get_set] at hget
          exact (Part.taken_cons_self hkey).mpr ⟨hfresh, hget ▸ hnode, hnone⟩
        · have hapart := h.apart.forall hq hp hpq
          rw [Part.taken_congr (valuesOf_cons_of_ne hkey hapart.key) Iff.rfl]
          have hother := hparts q hq
          rw [hapart.get] at hother
          exact (Part.taken_congr rfl (by simp [hapart.key])).mp hother
      · obtain ⟨hkeys, hparts⟩ := ih.mp hrest
        refine ⟨⟨⟨key, hkey⟩, hkeys⟩, fun q hq => ?_⟩
        have hne := Part.key_ne_of_find? hfind hq
        exact (Part.taken_congr (valuesOf_cons_of_ne hkey hne) Iff.rfl).mpr (hparts q hq)
    · rintro ⟨⟨⟨key, hkey⟩, hkeys⟩, hparts⟩
      refine ⟨key, hkey, ?_⟩
      cases hfind : parts.find? (·.key == key) with
      | none =>
        refine Or.inr ⟨rfl, ih.mpr ⟨hkeys, fun q hq => ?_⟩⟩
        have hne := Part.key_ne_of_find? hfind hq
        exact (Part.taken_congr (valuesOf_cons_of_ne hkey hne) Iff.rfl).mp (hparts q hq)
      | some p =>
        obtain ⟨hp, rfl⟩ := Part.key_of_find? hfind
        obtain ⟨hfresh, hnode, hnone⟩ := (Part.taken_cons_self hkey).mp (hparts p hp)
        refine Or.inl ⟨p, rfl, hfresh, _, hnode, ih.mpr ⟨hkeys, fun q hq => ?_⟩⟩
        by_cases hpq : q = p
        · subst hpq
          exact (Part.taken_of_mem List.mem_cons_self).mpr ⟨hnone, (q.get_set _ _).symm⟩
        · have hapart := h.apart.forall hq hp hpq
          rw [hapart.get]
          have hother := hparts q hq
          rw [Part.taken_congr (valuesOf_cons_of_ne hkey hapart.key) Iff.rfl] at hother
          exact (Part.taken_congr rfl (by simp [hapart.key])).mp hother

/-- A mapping holds some entries, the keys of which are texts. One that is left out holds none. -/
inductive HoldsEntries (document node : Node) : List (Node × Node) → Prop
  | mapping {properties : Properties} {entries : List (Node × Node)}
      (h : node.resolve document = .mapping properties entries)
      (hkeys : ∀ e ∈ entries, ∃ key, textOf? document e.1 = some key) :
      HoldsEntries document node entries
  | leftOut {properties : Properties} (h : node.resolve document = .scalar properties .plain "") :
      HoldsEntries document node []

/-- **A mapping is decoded part by part.** -/
theorem decode_eq_some_iff (h : Part.Independent parts) :
    decode document (parts.map Part.setting) record node = some result ↔
      ∃ entries, HoldsEntries document node entries ∧
        ∀ p ∈ parts, p.Taken document entries [] (p.get record) (p.get result) := by
  unfold decode
  constructor
  · intro hdecode
    split at hdecode
    case h_1 entries hnode =>
      obtain ⟨hkeys, hparts⟩ := (decodeEntries_eq_some_iff h).mp hdecode
      exact ⟨entries, .mapping hnode hkeys, hparts⟩
    case h_2 hnode =>
      obtain rfl := Option.some.inj hdecode
      exact ⟨[], .leftOut hnode, fun p _ => .leftOut rfl⟩
    case h_3 => cases hdecode
  · rintro ⟨entries, hentries, hparts⟩
    cases hentries with
    | mapping hnode hkeys =>
      rw [hnode]
      exact (decodeEntries_eq_some_iff h).mpr ⟨hkeys, hparts⟩
    | leftOut hnode =>
      rw [hnode]
      refine congrArg some (h.ext _ _ fun p hp => (Part.taken_nil.mp (hparts p hp)).symm)

end Setting

/-! ### What is set -/

/-- What a key is set to, if it is: what the only value that it has means. -/
def Sets {β : Type} (document : Node) (entries : List (Node × Node)) (key : String)
    (Means : Node → β → Prop) : Option β → Prop
  | none => valuesOf document key entries = []
  | some content => ∃ node, valuesOf document key entries = [node] ∧ Means node content

/-- A part is what its key is set to, if it is. -/
theorem Part.taken_iff {β : Type} {p : Part α} {document : Node} {entries : List (Node × Node)}
    {old new : p.Content} {Means : Node → β → Prop} (contents : β → p.Content)
    (h : ∀ node content, p.decode node = some content ↔ ∃ b, Means node b ∧ content = contents b) :
    p.Taken document entries [] old new ↔
      ∃ o, Sets document entries p.key Means o ∧ new = (o.map contents).getD old := by
  constructor
  · rintro (hnone | ⟨-, hone, hnode⟩)
    · exact ⟨none, hnone, rfl⟩
    · obtain ⟨b, hmeans, rfl⟩ := (h _ _).mp hnode
      exact ⟨some b, ⟨_, hone, hmeans⟩, rfl⟩
  · rintro ⟨_ | b, hsets, rfl⟩
    · exact .leftOut hsets
    · obtain ⟨node, hone, hmeans⟩ := hsets
      exact .set (List.not_mem_nil) hone ((h _ _).mpr ⟨b, hmeans, rfl⟩)

end ArchFacts
