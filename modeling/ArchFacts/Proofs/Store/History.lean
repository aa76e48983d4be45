import ArchFacts.Proofs.Store.Indexes
import ArchFacts.Proofs.Store.Persistence
import Mathlib.Data.List.Forall2

/-!
# What happens to a fact

Facts are added at the end of a store and stay where they are. The only changes that they see are
relabellings: a fact may get the label of a repository, and a path in front of its file if it has
one. So until a store is cleared it holds, position by position, the facts that were there and those
that came in, each as it was but for its label and for some of the paths that were given with
relabellings, the latest first, in front of its file (`run_relabels`).

Each change is compared with the facts that it brings in. Two relabellings one after the other put
the paths of the second in front of those of the first, so the comparison goes on from change to
change by induction.
-/

namespace ArchFacts

/-- A fact as it was, but for its repository and some paths in front of its file, the latest first.
A fact without a file stays without one. -/
structure Relabelled (paths : List String) (f g : Fact) : Prop where
  kind : g.kind = f.kind
  name : g.name = f.name
  line : g.line = f.line
  props : g.props = f.props
  relations : g.relations = f.relations
  file : f.file = "" ∧ g.file = "" ∨
    f.file ≠ "" ∧ ∃ front : List String, front.Sublist paths.reverse ∧
      g.file = String.join front ++ f.file

namespace Relabelled

variable {paths later : List String} {f g g' : Fact} {repo path : String}

theorem of_sameFile (paths : List String) (repo : String) : Relabelled paths f { f with repo } := by
  refine ⟨rfl, rfl, rfl, rfl, rfl, ?_⟩
  by_cases h : f.file = ""
  · exact Or.inl ⟨h, h⟩
  · exact Or.inr ⟨h, [], List.nil_sublist _, String.empty_append.symm⟩

theorem of_path (repo path : String) (h : f.file ≠ "") :
    Relabelled [path] f { f with repo, file := path ++ f.file } := by
  refine ⟨rfl, rfl, rfl, rfl, rfl, Or.inr ⟨h, [path], List.Sublist.refl _, ?_⟩⟩
  rw [String.join_cons, String.join_nil, String.append_empty]

theorem refl (paths : List String) (f : Fact) : Relabelled paths f f :=
  of_sameFile paths f.repo

instance (paths : List String) : Std.Refl (Relabelled paths) := ⟨refl paths⟩

theorem relocate (repo path : String) (f : Fact) : Relabelled [path] f (f.relocate repo path) := by
  unfold Fact.relocate underPath
  by_cases h : f.file = ""
  · rw [if_pos h]
    exact ⟨rfl, rfl, rfl, rfl, rfl, Or.inl ⟨h, rfl⟩⟩
  · rw [if_neg h]
    exact of_path repo path h

theorem tag (repo path : String) (f : Fact) : Relabelled [path] f (Store.tag repo path f) := by
  unfold Store.tag
  by_cases hrepo : Store.belongs repo f
  · rw [if_pos hrepo]
    by_cases hneeds : Store.needsPath path f.file
    · have hfile : f.file ≠ "" := by
        intro hempty
        simp [Store.needsPath, hempty] at hneeds
      rw [if_pos hneeds]
      exact of_path repo path hfile
    · rw [if_neg hneeds]
      exact of_sameFile [path] repo
  · rw [if_neg hrepo]
    exact refl [path] f

/-- The paths of a later relabelling come in front of those of an earlier one. -/
theorem trans (h : Relabelled paths f g) (h' : Relabelled later g g') :
    Relabelled (paths ++ later) f g' := by
  refine ⟨h'.kind.trans h.kind, h'.name.trans h.name, h'.line.trans h.line, h'.props.trans h.props,
    h'.relations.trans h.relations, ?_⟩
  rcases h.file with ⟨hf, hg⟩ | ⟨hf, front, hfront, hg⟩
  · rcases h'.file with ⟨-, hg'⟩ | ⟨hne, -⟩
    · exact Or.inl ⟨hf, hg'⟩
    · exact absurd hg hne
  · have hne : g.file ≠ "" := by
      intro hempty
      rw [hg, String.append_eq_empty_iff] at hempty
      exact hf hempty.2
    rcases h'.file with ⟨hempty, -⟩ | ⟨-, front', hfront', hg'⟩
    · exact absurd hempty hne
    · refine Or.inr ⟨hf, front' ++ front, ?_, ?_⟩
      · rw [List.reverse_append]
        exact hfront'.append hfront
      · rw [hg', hg, String.join_append, String.append_assoc]

end Relabelled

theorem forall₂_trans {α : Type} {R S T : α → α → Prop} {as bs cs : List α}
    (htrans : ∀ a b c, R a b → S b c → T a c) (h : List.Forall₂ R as bs)
    (h' : List.Forall₂ S bs cs) : List.Forall₂ T as cs := by
  induction h generalizing cs with
  | nil =>
    cases h'
    exact .nil
  | cons hab _ ih =>
    cases h' with
    | cons hbc hrest => exact .cons (htrans _ _ _ hab hbc) (ih hrest)

namespace Store

variable {s : Store} {start : Nat} {repo path : String} {change : Fact → Fact}

/-! ### Changing facts in place -/

theorem changeFrom_of_le (h : s.count ≤ start) : s.changeFrom start change = (s, 0) :=
  if_pos h

theorem facts_changeFrom_of_lt (h : start < s.count) :
    (s.changeFrom start change).1.facts = s.facts.take start ++ (s.facts.drop start).map change := by
  rw [changeFrom, if_neg (Nat.not_le.mpr h)]
  rfl

theorem facts_changeFrom (s : Store) (start : Nat) (change : Fact → Fact) :
    (s.changeFrom start change).1.facts = s.facts.take start ++ (s.facts.drop start).map change := by
  rcases Nat.lt_or_ge start s.count with h | h
  · exact facts_changeFrom_of_lt h
  · rw [changeFrom_of_le h, List.take_of_length_le h, List.drop_eq_nil_of_le h]
    exact (List.append_nil _).symm

/-- Facts that are not pending would not be changed. -/
theorem tag_of_not_pending {f : Fact} (h : pending repo path f = false) : tag repo path f = f := by
  unfold tag
  by_cases hrepo : belongs repo f
  · rw [pending, hrepo, Bool.true_and, Bool.or_eq_false_iff] at h
    obtain ⟨hsame, hneeds⟩ := h
    obtain rfl : f.repo = repo := by simpa using hsame
    rw [if_pos hrepo, hneeds]
    rfl
  · rw [if_neg hrepo]

theorem facts_tagUntagged (s : Store) (repo path : String) :
    (s.tagUntagged repo path).1.facts = s.facts.map (tag repo path) := by
  unfold tagUntagged
  by_cases h : s.facts.any (pending repo path)
  · rw [if_pos h]
    rfl
  · rw [if_neg h]
    have hsame : ∀ f ∈ s.facts, tag repo path f = f := fun f hf =>
      tag_of_not_pending (eq_false_of_ne_true fun hf' => h (List.any_eq_true.mpr ⟨f, hf, hf'⟩))
    exact ((List.map_congr_left hsame).trans (List.map_id _)).symm

/-- What a relabelling from a position on does and tells. -/
structure LabelledFrom (s : Store) (start : Nat) (repo : String) (result : Store × Nat) : Prop where
  count : result.1.count = s.count
  before : result.1.facts.take start = s.facts.take start
  label : ∀ f ∈ result.1.facts.drop start, f.repo = repo
  number : result.2 = s.count - start

theorem labelledFrom_changeFrom (s : Store) (start : Nat) (hlabel : ∀ f, (change f).repo = repo) :
    LabelledFrom s start repo (s.changeFrom start change) := by
  rcases Nat.lt_or_ge start s.count with h | h
  · have hfront : (s.facts.take start).length = start := List.length_take_of_le (Nat.le_of_lt h)
    have hfacts : (s.changeFrom start change).1.facts = _ := facts_changeFrom_of_lt h
    refine ⟨?_, ?_, fun f hf => ?_, ?_⟩
    · rw [count, hfacts, List.length_append, List.length_map, ← List.length_append,
        List.take_append_drop]
      rfl
    · rw [hfacts]
      exact List.take_left' hfront
    · rw [hfacts, List.drop_left' hfront] at hf
      obtain ⟨before, -, rfl⟩ := List.mem_map.mp hf
      exact hlabel before
    · rw [changeFrom, if_neg (Nat.not_le.mpr h)]
  · rw [changeFrom_of_le h]
    refine ⟨rfl, rfl, fun f hf => ?_, (Nat.sub_eq_zero_of_le h).symm⟩
    rw [List.drop_eq_nil_of_le h] at hf
    cases hf

/-! ### Adding facts -/

/-- What adding facts does and tells. -/
structure Added (s : Store) (facts : List Fact) (result : Store × Span) : Prop where
  start : result.2.start = s.count
  stop : result.2.stop = s.count + facts.length
  count : result.1.count = result.2.stop
  before : ∀ i < s.count, result.1.get? i = s.get? i
  found : ∀ i < facts.length, result.1.get? (result.2.start + i) = facts[i]?

theorem added_add (s : Store) (facts : List Fact) : Added s facts (s.add facts) := by
  have hfacts := facts_pushAll s facts
  have hcount : (s.pushAll facts).count = s.count + facts.length := by
    rw [count, hfacts, List.length_append, count]
  refine ⟨rfl, hcount, rfl, fun i hi => ?_, fun i _ => ?_⟩
  · exact (congrArg (·[i]?) hfacts).trans (List.getElem?_append_left hi)
  · refine (congrArg (·[s.count + i]?) hfacts).trans ?_
    exact (List.getElem?_append_right (Nat.le_add_right _ _)).trans
      (congrArg (facts[·]?) (Nat.add_sub_cancel_left _ _))

/-- The facts that were read; none if reading failed. -/
def factsOf (source : Except Failure (List Fact)) : List Fact := source.toOption.getD []

theorem readRecords_eq_map (s : Store) (bytes : List UInt8) :
    s.readRecords bytes = ((Records.read Fact.read bytes).mapError Failure.stream).map s.add := by
  unfold readRecords
  cases Records.read Fact.read bytes <;> rfl

theorem facts_readOr_map (s : Store) (source : Except Failure (List Fact)) :
    (s.readOr (source.map s.add)).facts = s.facts ++ factsOf source := by
  cases source with
  | error failure => exact (List.append_nil _).symm
  | ok facts => exact facts_pushAll s facts

theorem added_of_map {source : Except Failure (List Fact)} {result : Store × Span}
    (h : source.map s.add = .ok result) : Added s (factsOf source) result := by
  cases source with
  | error failure => cases h
  | ok facts => exact Except.ok.inj h ▸ added_add s facts

/-! ### Every change -/

/-- The facts that a change brings in. -/
def Change.brings : Change → List Fact
  | .add facts => facts
  | .readRecords bytes => factsOf ((Records.read Fact.read bytes).mapError Failure.stream)
  | .load tree path => factsOf (factsIn tree path)
  | .tagRange .. | .tagUntagged .. | .setRepoRange .. | .rebuildGraph | .clear => []

/-- The path that a change puts in front of files. -/
def Change.paths : Change → List String
  | .tagRange _ _ path | .tagUntagged _ path => [path]
  | .add _ | .readRecords _ | .load .. | .setRepoRange .. | .rebuildGraph | .clear => []

theorem changeFrom_relabels {paths : List String} (s : Store) (start : Nat)
    (hchange : ∀ f, Relabelled paths f (change f)) :
    List.Forall₂ (Relabelled paths) s.facts (s.changeFrom start change).1.facts := by
  have hrest : List.Forall₂ (Relabelled paths) (s.facts.drop start)
      ((s.facts.drop start).map change) :=
    List.forall₂_map_right_iff.mpr (List.forall₂_same.mpr fun f _ => hchange f)
  have hall : List.Forall₂ (Relabelled paths) (s.facts.take start ++ s.facts.drop start)
      (s.facts.take start ++ (s.facts.drop start).map change) :=
    List.rel_append (List.forall₂_refl _) hrest
  rwa [List.take_append_drop, ← facts_changeFrom] at hall

/-- **One change** but clearing the store relabels the facts that are there and brings others in
after them. -/
theorem apply_relabels (s : Store) {change : Change} (h : change ≠ .clear) :
    List.Forall₂ (Relabelled change.paths) (s.facts ++ change.brings) (s.apply change).facts := by
  cases change with
  | add facts => exact facts_pushAll s facts ▸ List.forall₂_refl _
  | readRecords bytes =>
    rw [apply, readRecords_eq_map, facts_readOr_map]
    exact List.forall₂_refl _
  | load tree path =>
    rw [apply, load, facts_readOr_map]
    exact List.forall₂_refl _
  | tagRange start repo path =>
    rw [Change.brings, List.append_nil]
    exact changeFrom_relabels s start (.relocate repo path)
  | tagUntagged repo path =>
    rw [Change.brings, List.append_nil, apply, facts_tagUntagged, List.forall₂_map_right_iff]
    exact List.forall₂_same.mpr fun f _ => .tag repo path f
  | setRepoRange start repo =>
    rw [Change.brings, List.append_nil]
    exact changeFrom_relabels s start fun _ => .of_sameFile [] repo
  | rebuildGraph =>
    rw [Change.brings, List.append_nil]
    exact List.forall₂_refl _
  | clear => exact absurd rfl h

/-- **A run of changes** that does not clear the store relabels the facts that were there and those
that came in. -/
theorem run_relabels (s : Store) {changes : List Change} (h : Change.clear ∉ changes) :
    List.Forall₂ (Relabelled (changes.flatMap Change.paths))
      (s.facts ++ changes.flatMap Change.brings) (s.run changes).facts := by
  induction changes generalizing s with
  | nil =>
    rw [List.flatMap_nil, List.flatMap_nil, List.append_nil]
    exact List.forall₂_refl _
  | cons change rest ih =>
    rw [List.mem_cons, not_or] at h
    obtain ⟨hchange, hrest⟩ := h
    -- the facts that later changes bring in are not there yet, and so as they will come in
    have hfirst : List.Forall₂ (Relabelled change.paths)
        ((s.facts ++ change.brings) ++ rest.flatMap Change.brings)
        ((s.apply change).facts ++ rest.flatMap Change.brings) :=
      List.rel_append (apply_relabels s (Ne.symm hchange)) (List.forall₂_refl _)
    rw [List.append_assoc] at hfirst
    rw [List.flatMap_cons, List.flatMap_cons]
    refine forall₂_trans ?_ hfirst (ih (s.apply change) hrest)
    exact fun _ _ _ => Relabelled.trans

/-- **Facts stay what and where they are** until a store is cleared: after a run of changes it holds
the facts that were there and those that came in, at their positions, each as it was but for its
label and for paths in front of its file. In the state that is reached, labelling the facts from a
position on leaves those before it alone, labels all others and tells how many these are, and adding
facts tells the positions at which they are found, whether they are given or read. -/
theorem run_history (s : Store) (changes : List Change) (h : Change.clear ∉ changes) :
    let t := s.run changes
    List.Forall₂ (Relabelled (changes.flatMap Change.paths))
        (s.facts ++ changes.flatMap Change.brings) t.facts ∧
      (∀ start repo path, LabelledFrom t start repo (t.tagRange start repo path)) ∧
      (∀ start repo, LabelledFrom t start repo (t.setRepoRange start repo)) ∧
      (∀ facts, Added t facts (t.add facts)) ∧
      (∀ bytes result, t.readRecords bytes = .ok result →
        Added t (Change.readRecords bytes).brings result) ∧
      ∀ tree path result, t.load tree path = .ok result →
        Added t (Change.load tree path).brings result := by
  refine ⟨run_relabels s h, fun start repo path => ?_, fun start repo => ?_, added_add _, ?_, ?_⟩
  · exact labelledFrom_changeFrom _ start fun _ => rfl
  · exact labelledFrom_changeFrom _ start fun _ => rfl
  · intro bytes result hread
    rw [readRecords_eq_map] at hread
    exact added_of_map hread
  · intro tree path result hload
    exact added_of_map hload

/-- Two code bases come into a store, and the files of each get a path in front; then the second is
moved. -/
def moved : List Change :=
  [.add [(Fact.of .symbol "a").withFile "x.rs" 1, Fact.of .symbol "b"], .rebuildGraph,
    .tagUntagged "one" "one/", .add [(Fact.of .symbol "a").withFile "x.rs" 1],
    .tagRange 2 "two" "two/", .setRepoRange 3 "none", .tagRange 1 "two" "moved/"]

theorem run_history_moved :
    Change.clear ∉ moved ∧
      (empty.run moved).facts.map (·.file) = ["one/x.rs", "", "moved/two/x.rs"] ∧
      List.Forall₂ (Relabelled ["one/", "two/", "moved/"])
        [(Fact.of .symbol "a").withFile "x.rs" 1, Fact.of .symbol "b",
          (Fact.of .symbol "a").withFile "x.rs" 1] (empty.run moved).facts := by
  have hclear : Change.clear ∉ moved := by simp [moved]
  exact ⟨hclear, by decide, (run_history empty moved hclear).1⟩

end Store

end ArchFacts
