import ArchFacts.Store.Query

/-!
# The dimensions of a query

A query asks for something in six dimensions. Each has its criteria, some of which may be set; a
dimension is fulfilled if none of its criteria is set or one that is set holds (`Fulfilled`). A text
that is empty is not set, just as one that is not there, and so is an empty choice.

A fact is accepted if it fulfils all dimensions (`accepts_iff_fulfilled`), with one exception: where
the kind of a fact or of a relation is asked for by the empty word, this word is a criterion like
any other. So a query with such a kind does not leave the dimension open. It seeks the facts whose
kind is the empty word (`blank_kind_excludes`).
-/

namespace ArchFacts

/-- What a query asks for. -/
inductive Dimension where
  | kind
  | file
  | name
  | repo
  | relation
  | property
  deriving DecidableEq, Repr

/-- A criterion as it bears on a fact: whether it is set, and whether it holds. -/
structure Criterion where
  isSet : Prop
  holds : Prop

namespace Criterion

/-- A criterion that a text sets, unless it is empty. -/
def ofText (text : Option String) (holds : String → Prop) : Criterion :=
  ⟨∃ t, text = some t ∧ t ≠ "", ∃ t, text = some t ∧ holds t⟩

/-- A choice of things, set unless it is empty. -/
def ofChoice {α : Type} (choices : List α) (a : α) : Criterion := ⟨choices ≠ [], a ∈ choices⟩

end Criterion

/-- None of the criteria is set, or one that is set holds. -/
def Fulfilled (criteria : List Criterion) : Prop :=
  (∀ c ∈ criteria, ¬c.isSet) ∨ ∃ c ∈ criteria, c.isSet ∧ c.holds

/-- A criterion of a query that a single text sets. -/
inductive TextCriterion where
  | kind
  | file
  | fileStart
  | name
  | repo
  | relationKind
  | propKey
  deriving DecidableEq, Repr

namespace Query

/-- The criteria of a query in a dimension, for a fact. -/
def criteria (q : Query) (f : Fact) : Dimension → List Criterion
  | .kind => [.ofText (q.kind.map (·.word)) (f.kind.word = ·), .ofChoice q.kinds f.kind]
  | .file =>
    [.ofText q.file (f.file = ·), .ofText q.fileStart fun start => start.toList <+: f.file.toList,
      .ofChoice q.files f.file]
  | .name =>
    [.ofText q.name fun part => part.toList <:+: f.name.toList, .ofChoice q.names f.name]
  | .repo => [.ofText q.repo (f.repo = ·)]
  | .relation =>
    [.ofText (q.relationKind.map (·.word)) fun word => ∃ r ∈ f.relations, r.kind.word = word]
  | .property =>
    [.ofText q.propKey fun key =>
      ∃ text, f.propText? key = some text ∧
        ∀ expected, q.propText = some expected → text = expected]

/-- A kind is asked for by the empty word. -/
def Blank (q : Query) : Dimension → Prop
  | .kind => q.kind.map (·.word) = some ""
  | .relation => q.relationKind.map (·.word) = some ""
  | .file | .name | .repo | .property => False

/-- What sets a criterion, if anything does. -/
def text? (q : Query) : TextCriterion → Option String
  | .kind => q.kind.map (·.word)
  | .file => q.file
  | .fileStart => q.fileStart
  | .name => q.name
  | .repo => q.repo
  | .relationKind => q.relationKind.map (·.word)
  | .propKey => q.propKey

/-- The query with the empty text for a criterion. -/
def blank (q : Query) : TextCriterion → Query
  | .kind => { q with kind := some ⟨""⟩ }
  | .file => { q with file := some "" }
  | .fileStart => { q with fileStart := some "" }
  | .name => { q with name := some "" }
  | .repo => { q with repo := some "" }
  | .relationKind => { q with relationKind := some ⟨""⟩ }
  | .propKey => { q with propKey := some "" }

end Query

/-! ### Criteria -/

section

variable {α : Type} {text : Option String} {holds : String → Prop} {choices : List α} {a : α}

theorem given?_eq_some {t : String} : given? text = some t ↔ text = some t ∧ t ≠ "" := by
  simp [given?, Option.filter_eq_some_iff]

theorem holdsIfSet_iff {criterion : Option α} {test : α → Bool} :
    holdsIfSet criterion test = true ↔ ∀ a, criterion = some a → test a = true := by
  cases criterion <;> simp [holdsIfSet]

namespace Criterion

@[simp] theorem not_isSet_ofText : ¬(ofText text holds).isSet ↔ given? text = none := by
  rw [Option.eq_none_iff_forall_ne_some, ← not_exists]
  simp only [given?_eq_some]
  exact Iff.rfl

@[simp] theorem ofText_isSet_and_holds :
    (ofText text holds).isSet ∧ (ofText text holds).holds ↔
      ∃ t, given? text = some t ∧ holds t := by
  simp only [given?_eq_some]
  constructor
  · rintro ⟨⟨t, ht, hne⟩, t', ht', hholds⟩
    obtain rfl : t = t' := Option.some.inj (ht.symm.trans ht')
    exact ⟨t, ⟨ht, hne⟩, hholds⟩
  · rintro ⟨t, ⟨ht, hne⟩, hholds⟩
    exact ⟨⟨t, ht, hne⟩, t, ht, hholds⟩

@[simp] theorem not_isSet_ofChoice : ¬(ofChoice choices a).isSet ↔ choices = [] :=
  Classical.not_not

@[simp] theorem ofChoice_isSet_and_holds :
    (ofChoice choices a).isSet ∧ (ofChoice choices a).holds ↔ a ∈ choices :=
  and_iff_right_of_imp List.ne_nil_of_mem

end Criterion

/-- A dimension with a single criterion, which a text sets. -/
theorem fulfilled_ofText :
    Fulfilled [.ofText text holds] ↔ ∀ t, given? text = some t → holds t := by
  simp only [Fulfilled, List.mem_singleton, forall_eq, exists_eq_left, Criterion.not_isSet_ofText,
    Criterion.ofText_isSet_and_holds]
  cases given? text <;> simp

end

@[simp] theorem FactKind.word_inj {a b : FactKind} : a.word = b.word ↔ a = b :=
  ⟨fun h => congrArg FactKind.mk h, fun h => congrArg word h⟩

@[simp] theorem RelationKind.word_inj {a b : RelationKind} : a.word = b.word ↔ a = b :=
  ⟨fun h => congrArg RelationKind.mk h, fun h => congrArg word h⟩

/-! ### Dimensions -/

namespace Query

variable {q : Query} {f : Fact}

/-- Where nothing is blank, a kind sets its criterion as soon as it is there. -/
theorem given?_of_not_blank {word : Option String} (h : word ≠ some "") : given? word = word := by
  cases word with
  | none => rfl
  | some w => exact given?_eq_some.mpr ⟨rfl, fun hw => h (congrArg some hw)⟩

theorem acceptsKind_iff :
    q.acceptsKind f = true ↔
      (¬q.Blank .kind → Fulfilled (q.criteria f .kind)) ∧
      (q.Blank .kind → f.kind.word = "" ∨ f.kind ∈ q.kinds) := by
  by_cases h : q.Blank .kind
  · obtain ⟨kind, hkind, hword⟩ := Option.map_eq_some_iff.mp h
    have hsame : kind = f.kind ↔ f.kind.word = "" := by
      rw [← FactKind.word_inj, hword, eq_comm]
    simp [h, acceptsKind, hkind, hsame]
  · simp [h, acceptsKind, criteria, Fulfilled, given?_of_not_blank h, or_assoc]

theorem acceptsFile_iff : q.acceptsFile f = true ↔ Fulfilled (q.criteria f .file) := by
  simp [acceptsFile, criteria, Fulfilled, Option.any_eq_true, Text.startsWith_iff, or_assoc,
    and_assoc, or_comm (a := f.file ∈ q.files)]

theorem acceptsName_iff : q.acceptsName f = true ↔ Fulfilled (q.criteria f .name) := by
  simp [acceptsName, criteria, Fulfilled, Option.any_eq_true, Text.contains_iff, or_assoc]

theorem acceptsRepo_iff :
    holdsIfSet (given? q.repo) (f.repo == ·) = true ↔ Fulfilled (q.criteria f .repo) := by
  simp [holdsIfSet_iff, criteria, fulfilled_ofText]

theorem acceptsRelation_iff :
    holdsIfSet q.relationKind f.hasRelation = true ↔
      (¬q.Blank .relation → Fulfilled (q.criteria f .relation)) ∧
      (q.Blank .relation → ∃ r ∈ f.relations, r.kind.word = "") := by
  by_cases h : q.Blank .relation
  · obtain ⟨kind, hkind, hword⟩ := Option.map_eq_some_iff.mp h
    simp [h, holdsIfSet_iff, hkind, Fact.hasRelation, ← hword]
  · simp [h, holdsIfSet_iff, criteria, fulfilled_ofText, given?_of_not_blank h, Fact.hasRelation]

theorem acceptsProp_iff : q.acceptsProp f = true ↔ Fulfilled (q.criteria f .property) := by
  simp [acceptsProp, criteria, fulfilled_ofText, holdsIfSet_iff, Option.any_eq_true]

/-- All dimensions are asked for. -/
theorem accepts_eq_true :
    q.accepts f = true ↔ q.acceptsKind f = true ∧ q.acceptsFile f = true ∧
      q.acceptsName f = true ∧ holdsIfSet (given? q.repo) (f.repo == ·) = true ∧
      holdsIfSet q.relationKind f.hasRelation = true ∧ q.acceptsProp f = true := by
  simp only [accepts, Bool.and_eq_true, and_assoc]

/-- A criterion of an empty text is one that is left open, unless it is a kind. -/
theorem accepts_blank {t : TextCriterion} (hopen : q.text? t = none) (hkind : t ≠ .kind)
    (hrelation : t ≠ .relationKind) : (q.blank t).accepts f = q.accepts f := by
  cases t with
  | kind => exact absurd rfl hkind
  | relationKind => exact absurd rfl hrelation
  | file =>
    rw [accepts, accepts, acceptsFile, acceptsFile, show q.file = none from hopen]
    rfl
  | fileStart =>
    rw [accepts, accepts, acceptsFile, acceptsFile, show q.fileStart = none from hopen]
    rfl
  | name =>
    rw [accepts, accepts, acceptsName, acceptsName, show q.name = none from hopen]
    rfl
  | repo =>
    rw [accepts, accepts, show q.repo = none from hopen]
    rfl
  | propKey =>
    rw [accepts, accepts, acceptsProp, acceptsProp, show q.propKey = none from hopen]
    rfl

end Query

theorem Store.query_congr (s : Store) {q q' : Query} (haccepts : ∀ f, q'.accepts f = q.accepts f)
    (hoffset : q'.offset = q.offset) (hlimit : q'.limit = q.limit) : s.query q' = s.query q := by
  rw [Store.query, Store.query, Store.positionsOf, Store.positionsOf, funext haccepts,
    Query.pageSize, Query.pageSize, hoffset, hlimit]

namespace Query

/-- **What a query accepts**: the facts that fulfil all its dimensions, where a criterion that is
the empty text is not set. Only the kinds of facts and of relations may be asked for by the empty
word. So a criterion that is left open may as well be given as the empty text, unless it is a
kind. -/
theorem accepts_iff_fulfilled (q : Query) (f : Fact) :
    (q.accepts f = true ↔
      (∀ d, ¬q.Blank d → Fulfilled (q.criteria f d)) ∧
      (q.Blank .kind → f.kind.word = "" ∨ f.kind ∈ q.kinds) ∧
      (q.Blank .relation → ∃ r ∈ f.relations, r.kind.word = "")) ∧
    ∀ t, q.text? t = none → t ≠ .kind → t ≠ .relationKind →
      ∀ s : Store, s.query (q.blank t) = s.query q := by
  constructor
  · rw [accepts_eq_true, acceptsKind_iff, acceptsFile_iff, acceptsName_iff, acceptsRepo_iff,
      acceptsRelation_iff, acceptsProp_iff]
    constructor
    · rintro ⟨⟨hkind, hblankKind⟩, hfile, hname, hrepo, ⟨hrelation, hblankRelation⟩, hprop⟩
      refine ⟨fun d hd => ?_, hblankKind, hblankRelation⟩
      cases d with
      | kind => exact hkind hd
      | file => exact hfile
      | name => exact hname
      | repo => exact hrepo
      | relation => exact hrelation hd
      | property => exact hprop
    · rintro ⟨hall, hblankKind, hblankRelation⟩
      exact ⟨⟨hall .kind, hblankKind⟩, hall .file id, hall .name id, hall .repo id,
        ⟨hall .relation, hblankRelation⟩, hall .property id⟩
  · intro t hopen hkind hrelation s
    refine s.query_congr (fun f => accepts_blank hopen hkind hrelation) ?_ ?_
    · cases t <;> rfl
    · cases t <;> rfl

/-- A symbol that declares nothing is accepted by the query that asks for nothing, and no longer
when that query is given an empty kind, of facts or of relations. -/
theorem blank_kind_excludes :
    (¬∀ (q : Query) (f : Fact), q.accepts f = true ↔ ∀ d, Fulfilled (q.criteria f d)) ∧
      ¬∀ (q : Query) (t : TextCriterion), q.text? t = none →
        ∀ s : Store, s.query (q.blank t) = s.query q := by
  constructor
  · intro h
    have hfulfilled : ∀ d, Fulfilled (criteria { kind := some ⟨""⟩ } (Fact.of .symbol "a") d) := by
      intro d
      cases d <;> simp [Fulfilled, criteria, given?]
    have haccepts := (h { kind := some ⟨""⟩ } (Fact.of .symbol "a")).mpr hfulfilled
    revert haccepts
    decide
  · intro h
    have hquery := h {} .relationKind rfl (.pushAll .empty [Fact.of .symbol "a"])
    have htotal := congrArg Page.total hquery
    revert htotal
    decide

end Query

end ArchFacts
