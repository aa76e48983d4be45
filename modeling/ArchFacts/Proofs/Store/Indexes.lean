import ArchFacts.Store.Change
import Mathlib.Data.List.Basic
import Mathlib.Data.List.Induction

/-!
# The indexes of a store agree with its facts

An index *lists* a sequence by a key if it holds, under every key, the positions of the members with
that key, in ascending order, and no key without a position. Adding a member to the sequence and
its position to the index keeps this, and so does any change of the members that leaves their keys
alone. Relabelling facts changes two of the keys, which is why it makes two of the indexes anew.

From the empty store on, whatever the changes, all four indexes list the facts (`WellIndexed.run`),
so a look-up gives exactly what a search through all facts would (`WellIndexed.ofKind` and its like).
-/

namespace ArchFacts

/-- A label as a key: the empty one is none. -/
def label? (label : String) : Option String := if label = "" then none else some label

theorem label?_eq_some {label key : String} : label? label = some key ↔ label = key ∧ key ≠ "" := by
  unfold label?
  by_cases h : label = ""
  · rw [if_pos h]
    constructor
    · intro hk
      cases hk
    · rintro ⟨rfl, hne⟩
      exact absurd h hne
  · rw [if_neg h]
    constructor
    · intro hk
      obtain rfl := Option.some.inj hk
      exact ⟨rfl, h⟩
    · rintro ⟨rfl, -⟩
      rfl

namespace Index

variable {κ α β : Type} [DecidableEq κ]

/-! ### The keys of an index -/

theorem keys_pushEntry (key : κ) (value : α) (entries : List (κ × List α)) :
    (pushEntry key value entries).map (·.1) =
      if key ∈ entries.map (·.1) then entries.map (·.1) else entries.map (·.1) ++ [key] := by
  induction entries with
  | nil => rfl
  | cons entry rest ih =>
    obtain ⟨k, values⟩ := entry
    by_cases hk : k = key
    · simp [pushEntry, hk]
    · have hk' : key ≠ k := fun h => hk h.symm
      by_cases hmem : key ∈ rest.map (·.1)
      · rw [if_pos hmem] at ih
        simp [pushEntry, hk, ih, hmem]
      · rw [if_neg hmem] at ih
        simp [pushEntry, hk, ih, hmem, hk']

theorem nodup_keys_push {index : Index κ α} (h : index.keys.Nodup) (key : κ) (value : α) :
    (index.push key value).keys.Nodup := by
  have hkeys := keys_pushEntry key value index.entries
  rw [keys, push, hkeys]
  by_cases hmem : key ∈ index.entries.map (·.1)
  · rw [if_pos hmem]
    exact h
  · rw [if_neg hmem]
    refine List.nodup_append.mpr ⟨h, by simp, fun a ha b hb hab => ?_⟩
    obtain rfl := List.mem_singleton.mp hb
    exact hmem (hab ▸ ha)

theorem occupied_pushEntry {entries : List (κ × List α)} (h : ∀ entry ∈ entries, entry.2 ≠ [])
    (key : κ) (value : α) : ∀ entry ∈ pushEntry key value entries, entry.2 ≠ [] := by
  induction entries with
  | nil =>
    intro entry he
    obtain rfl := List.mem_singleton.mp he
    exact List.cons_ne_nil _ _
  | cons first rest ih =>
    obtain ⟨k, values⟩ := first
    intro entry he
    by_cases hk : k = key
    · rw [pushEntry, if_pos hk] at he
      rcases List.mem_cons.mp he with rfl | he
      · exact List.append_ne_nil_of_right_ne_nil _ (List.cons_ne_nil _ _)
      · exact h entry (List.mem_cons_of_mem _ he)
    · rw [pushEntry, if_neg hk] at he
      rcases List.mem_cons.mp he with rfl | he
      · exact h _ List.mem_cons_self
      · exact ih (fun e hm => h e (List.mem_cons_of_mem _ hm)) entry he

/-! ### Listing a sequence -/

/-- The members at the positions of those with a property are the members with it. -/
theorem filterMap_findIdxs (p : α → Bool) (as : List α) :
    (as.findIdxs p).filterMap (as[·]?) = as.filter p := by
  induction as using List.reverseRecOn with
  | nil => rfl
  | append_singleton as a ih =>
    -- the positions found so far lie before the new member
    have hold : (as.findIdxs p).filterMap ((as ++ [a])[·]?) =
        (as.findIdxs p).filterMap (as[·]?) := by
      refine List.filterMap_congr fun i hi => ?_
      have hlt := List.lt_add_of_mem_findIdxs i hi
      exact List.getElem?_append_left hlt
    rw [List.findIdxs_append, List.filterMap_append, List.filter_append, hold, ih]
    by_cases hp : p a
    · simp [hp]
    · simp [hp]

/-- An index agrees with a sequence: the positions under every key ascend and are exactly those of
the members with that key, and every key stands there once and has a position. -/
structure Agrees (index : Index κ Nat) (key : α → Option κ) (as : List α) : Prop where
  ascending : ∀ k, (index.get k).Pairwise (· < ·)
  mem_get : ∀ k i, i ∈ index.get k ↔ ∃ a, as[i]? = some a ∧ key a = some k
  nodup_keys : index.keys.Nodup
  occupied : ∀ entry ∈ index.entries, entry.2 ≠ []

/-- The same as an equation, the form in which it is kept: `findIdxs` finds the positions of the
members with a key from the first to the last. -/
structure Lists (index : Index κ Nat) (key : α → Option κ) (as : List α) : Prop where
  get_eq : ∀ k, index.get k = as.findIdxs fun a => key a = some k
  nodup_keys : index.keys.Nodup
  occupied : ∀ entry ∈ index.entries, entry.2 ≠ []

namespace Lists

variable {index : Index κ Nat} {key : α → Option κ} {as : List α}

theorem empty (key : α → Option κ) : Lists Index.empty key [] :=
  ⟨fun _ => rfl, List.nodup_nil, fun _ he => absurd he List.not_mem_nil⟩

/-- A new member with a key is listed under it. -/
theorem push (h : Lists index key as) {a : α} {k : κ} (hk : key a = some k) :
    Lists (index.push k as.length) key (as ++ [a]) := by
  refine ⟨fun k' => ?_, nodup_keys_push h.nodup_keys _ _, occupied_pushEntry h.occupied _ _⟩
  rw [get_push, h.get_eq, List.findIdxs_append]
  by_cases hkk : k' = k
  · simp [hkk, hk]
  · have hkk' : ¬k = k' := fun e => hkk e.symm
    simp [hkk, hk, hkk']

/-- A new member without a key is listed nowhere. -/
theorem skip (h : Lists index key as) {a : α} (hk : key a = none) :
    Lists index key (as ++ [a]) := by
  refine ⟨fun k => ?_, h.nodup_keys, h.occupied⟩
  rw [h.get_eq, List.findIdxs_append]
  simp [hk]

theorem pushLabel {index : Index String Nat} {label : α → String}
    (h : Lists index (fun a => label? (label a)) as) (a : α) :
    Lists (index.pushLabel (label a) as.length) (fun a => label? (label a)) (as ++ [a]) := by
  by_cases hl : label a = ""
  · rw [Index.pushLabel, if_pos hl]
    exact h.skip (if_pos hl)
  · rw [Index.pushLabel, if_neg hl]
    exact h.push (if_neg hl)

/-- What counts of the members are their keys. -/
theorem of_map_eq (h : Lists index key as) {bs : List β} {key' : β → Option κ}
    (hmap : bs.map key' = as.map key) : Lists index key' bs := by
  refine ⟨fun k => ?_, h.nodup_keys, h.occupied⟩
  have ha : as.findIdxs (fun a => key a = some k) = (as.map key).findIdxs (· = some k) := by
    rw [List.findIdxs_map]
    rfl
  have hb : bs.findIdxs (fun b => key' b = some k) = (bs.map key').findIdxs (· = some k) := by
    rw [List.findIdxs_map]
    rfl
  rw [h.get_eq, ha, hb, hmap]

theorem ofLabels (labels : List String) : Lists (Index.ofLabels labels) label? labels := by
  induction labels using List.reverseRecOn with
  | nil => exact Lists.empty label?
  | append_singleton labels label ih =>
    have split : Index.ofLabels (labels ++ [label]) =
        (Index.ofLabels labels).pushLabel label labels.length := by
      simp [Index.ofLabels, List.zipIdx_append]
    -- the members are their own labels
    have whole : Lists (Index.ofLabels labels) (fun label => label? (id label)) labels := ih
    rw [split]
    exact whole.pushLabel label

/-- The members at the positions under a key are the members with that key, in order. -/
theorem filterMap_get (h : Lists index key as) (k : κ) :
    (index.get k).filterMap (as[·]?) = as.filter fun a => key a = some k := by
  rw [h.get_eq, filterMap_findIdxs]

theorem mem_get (h : Lists index key as) {k : κ} {i : Nat} :
    i ∈ index.get k ↔ ∃ a, as[i]? = some a ∧ key a = some k := by
  rw [h.get_eq, List.mem_findIdxs_iff_exists_getElem_pos]
  constructor
  · rintro ⟨hi, hk⟩
    exact ⟨as[i], List.getElem?_eq_getElem hi, of_decide_eq_true hk⟩
  · rintro ⟨a, ha, hk⟩
    obtain ⟨hi, rfl⟩ := List.getElem?_eq_some_iff.mp ha
    exact ⟨hi, decide_eq_true hk⟩

theorem agrees (h : Lists index key as) : Agrees index key as where
  ascending k := by
    rw [h.get_eq]
    exact List.pairwise_findIdxs
  mem_get _ _ := h.mem_get
  nodup_keys := h.nodup_keys
  occupied := h.occupied

end Lists

end Index

namespace Store

/-! ### What changes leave alone -/

theorem kind_tag (repo path : String) (f : Fact) : (tag repo path f).kind = f.kind := by
  unfold tag
  split <;> rfl

theorem name_tag (repo path : String) (f : Fact) : (tag repo path f).name = f.name := by
  unfold tag
  split <;> rfl

/-- What is read from a stream is added after the facts that are there. -/
theorem readRecords_eq_ok {s read : Store} {span : Span} {bytes : List UInt8}
    (h : s.readRecords bytes = .ok (read, span)) : ∃ facts, read = s.pushAll facts := by
  unfold readRecords at h
  cases hr : Records.read Fact.read bytes with
  | error error =>
    rw [hr] at h
    cases h
  | ok facts =>
    rw [hr] at h
    exact ⟨facts, (congrArg Prod.fst (Except.ok.inj h)).symm⟩

/-- What is read from a file is added after the facts that are there. -/
theorem load_eq_ok {s read : Store} {span : Span} {tree : Directory.Tree} {path : String}
    (h : s.load tree path = .ok (read, span)) : ∃ facts, read = s.pushAll facts := by
  unfold load at h
  cases hr : factsIn tree path with
  | error failure =>
    rw [hr] at h
    cases h
  | ok facts =>
    rw [hr] at h
    exact ⟨facts, (congrArg Prod.fst (Except.ok.inj h)).symm⟩

/-! ### The invariant -/

/-- Every index lists the facts by its key. -/
structure WellIndexed (s : Store) : Prop where
  byKind : s.byKind.Lists (fun f => some f.kind) s.facts
  byFile : s.byFile.Lists (fun f => label? f.file) s.facts
  byName : s.byName.Lists (fun f => label? f.name) s.facts
  byRepo : s.byRepo.Lists (fun f => label? f.repo) s.facts

namespace WellIndexed

variable {s : Store}

theorem empty : Store.empty.WellIndexed :=
  ⟨.empty _, .empty _, .empty _, .empty _⟩

theorem push (h : s.WellIndexed) (f : Fact) : (s.push f).WellIndexed :=
  ⟨h.byKind.push rfl, h.byFile.pushLabel f, h.byName.pushLabel f, h.byRepo.pushLabel f⟩

theorem pushAll (h : s.WellIndexed) (facts : List Fact) : (s.pushAll facts).WellIndexed := by
  induction facts generalizing s with
  | nil => exact h
  | cons f rest ih => exact ih (h.push f)

/-- Facts may be replaced by others of the same kinds and names if the two other indexes are made
anew. -/
theorem reindex (h : s.WellIndexed) {facts : List Fact}
    (hkind : facts.map (·.kind) = s.facts.map (·.kind))
    (hname : facts.map (·.name) = s.facts.map (·.name)) :
    (Store.reindex { s with facts }).WellIndexed where
  byKind := by
    refine h.byKind.of_map_eq ?_
    have hk := congrArg (List.map some) hkind
    rwa [List.map_map, List.map_map] at hk
  byFile := (Index.Lists.ofLabels _).of_map_eq (by rw [List.map_map]; rfl)
  byName := by
    refine h.byName.of_map_eq ?_
    have hn := congrArg (List.map label?) hname
    rwa [List.map_map, List.map_map] at hn
  byRepo := (Index.Lists.ofLabels _).of_map_eq (by rw [List.map_map]; rfl)

theorem changeFrom (h : s.WellIndexed) (start : Nat) {change : Fact → Fact}
    (hkind : ∀ f, (change f).kind = f.kind) (hname : ∀ f, (change f).name = f.name) :
    (s.changeFrom start change).1.WellIndexed := by
  unfold Store.changeFrom
  by_cases hs : s.count ≤ start
  · rw [if_pos hs]
    exact h
  · rw [if_neg hs]
    refine h.reindex ?_ ?_
    · rw [List.map_append, List.map_map, Function.comp_def, funext hkind, ← List.map_append,
        List.take_append_drop]
    · rw [List.map_append, List.map_map, Function.comp_def, funext hname, ← List.map_append,
        List.take_append_drop]

theorem tagUntagged (h : s.WellIndexed) (repo path : String) :
    (s.tagUntagged repo path).1.WellIndexed := by
  unfold Store.tagUntagged
  by_cases hp : s.facts.any (pending repo path)
  · rw [if_pos hp]
    refine h.reindex ?_ ?_
    · rw [List.map_map, Function.comp_def]
      exact List.map_congr_left fun f _ => kind_tag repo path f
    · rw [List.map_map, Function.comp_def]
      exact List.map_congr_left fun f _ => name_tag repo path f
  · rw [if_neg hp]
    exact h

theorem readOr (h : s.WellIndexed) {result : Except Failure (Store × Span)}
    (hread : ∀ read span, result = .ok (read, span) → read.WellIndexed) :
    (s.readOr result).WellIndexed := by
  cases result with
  | error failure => exact h
  | ok read => exact hread read.1 read.2 rfl

/-- Every change keeps the indexes in step with the facts. -/
theorem apply (h : s.WellIndexed) (change : Change) : (s.apply change).WellIndexed := by
  cases change with
  | add facts => exact h.pushAll facts
  | readRecords bytes =>
    refine h.readOr fun read span hr => ?_
    obtain ⟨facts, rfl⟩ := readRecords_eq_ok hr
    exact h.pushAll facts
  | load tree path =>
    refine h.readOr fun read span hr => ?_
    obtain ⟨facts, rfl⟩ := load_eq_ok hr
    exact h.pushAll facts
  | tagRange start repo path => exact h.changeFrom start (fun _ => rfl) fun _ => rfl
  | tagUntagged repo path => exact h.tagUntagged repo path
  | setRepoRange start repo => exact h.changeFrom start (fun _ => rfl) fun _ => rfl
  | rebuildGraph => exact ⟨h.byKind, h.byFile, h.byName, h.byRepo⟩
  | clear => exact .empty

theorem run (h : s.WellIndexed) (changes : List Change) : (s.run changes).WellIndexed := by
  induction changes generalizing s with
  | nil => exact h
  | cons change rest ih => exact ih (h.apply change)

/-! ### Looking up -/

theorem ofKind (h : s.WellIndexed) (kind : FactKind) :
    s.ofKind kind = s.facts.filter (·.kind = kind) := by
  refine (h.byKind.filterMap_get kind).trans ?_
  simp only [Option.some.injEq]

/-- The facts at the positions that an index of labels holds under a label. -/
theorem collect_label {index : Index String Nat} {label : Fact → String}
    (h : index.Lists (fun f => label? (label f)) s.facts) (key : String) :
    s.collect (index.get key) = if key = "" then [] else s.facts.filter (label · = key) := by
  refine (h.filterMap_get key).trans ?_
  by_cases hk : key = ""
  · rw [if_pos hk, List.filter_eq_nil_iff]
    intro f _ hf
    exact (label?_eq_some.mp (of_decide_eq_true hf)).2 hk
  · rw [if_neg hk]
    refine List.filter_congr fun f _ => decide_eq_decide.mpr ?_
    rw [label?_eq_some]
    exact ⟨And.left, fun hf => ⟨hf, hk⟩⟩

theorem inFile (h : s.WellIndexed) (file : String) :
    s.inFile file = if file = "" then [] else s.facts.filter (·.file = file) :=
  collect_label h.byFile file

theorem named (h : s.WellIndexed) (name : String) :
    s.named name = if name = "" then [] else s.facts.filter (·.name = name) :=
  collect_label h.byName name

theorem inRepo (h : s.WellIndexed) (repo : String) :
    s.inRepo repo = if repo = "" then [] else s.facts.filter (·.repo = repo) :=
  collect_label h.byRepo repo

end WellIndexed

/-- **The indexes agree with the facts**, whatever has happened to a store since it was empty, and so
a look-up finds exactly the facts with the key that is looked for, in the order in which they were
added. -/
theorem indexes_agree_after_run (changes : List Change) :
    let s := empty.run changes
    (s.byKind.Agrees (fun f => some f.kind) s.facts ∧
      s.byFile.Agrees (fun f => label? f.file) s.facts ∧
      s.byName.Agrees (fun f => label? f.name) s.facts ∧
      s.byRepo.Agrees (fun f => label? f.repo) s.facts) ∧
    (∀ kind, s.ofKind kind = s.facts.filter (·.kind = kind)) ∧
    (∀ file, s.inFile file = if file = "" then [] else s.facts.filter (·.file = file)) ∧
    (∀ name, s.named name = if name = "" then [] else s.facts.filter (·.name = name)) ∧
    (∀ repo, s.inRepo repo = if repo = "" then [] else s.facts.filter (·.repo = repo)) := by
  intro s
  have h : s.WellIndexed := WellIndexed.empty.run changes
  exact ⟨⟨h.byKind.agrees, h.byFile.agrees, h.byName.agrees, h.byRepo.agrees⟩,
    h.ofKind, h.inFile, h.named, h.inRepo⟩

end Store

end ArchFacts
