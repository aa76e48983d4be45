import ArchFacts.Proofs.Store.Indexes
import ArchFacts.Store.Filter

/-!
# Filtering by way of an index

A filter looks for facts among those of a kind, else among those in a file, else among all of them.
What an index leaves aside does not fulfil the criterion that the index was chosen for, so the
facts are the same as if all of them were looked at, and in the same order.

There is one exception. Facts without a file are in no list of the index of files, yet a filter that
sets the file to the empty text accepts them. Such a filter finds them if it sets a kind as well,
since it then goes by the kinds, and finds nothing otherwise (`WellIndexed.filter_eq`).
-/

namespace ArchFacts

namespace FactFilter

/-- The filter goes by the index of files, and looks there for facts without a file. -/
def SeeksNoFile (q : FactFilter) : Prop := q.kind = none ∧ q.file = some ""

instance (q : FactFilter) : Decidable q.SeeksNoFile :=
  inferInstanceAs (Decidable (q.kind = none ∧ q.file = some ""))

variable {q : FactFilter} {f : Fact}

theorem kind_of_accepts {kind : FactKind} (hq : q.kind = some kind) (h : q.accepts f = true) :
    f.kind = kind := by
  rw [accepts, hq, Bool.and_eq_true, Bool.and_eq_true, Bool.and_eq_true] at h
  exact eq_of_beq h.1.1.1

theorem file_of_accepts {file : String} (hq : q.file = some file) (h : q.accepts f = true) :
    f.file = file := by
  rw [accepts, hq, Bool.and_eq_true, Bool.and_eq_true, Bool.and_eq_true] at h
  exact eq_of_beq h.1.1.2

end FactFilter

namespace Store

variable {s : Store} {q : FactFilter}

/-- Facts with a property that all accepted ones have may be picked out first. -/
theorem filter_accepts_of_imp {p : Fact → Bool} (h : ∀ f, q.accepts f = true → p f = true)
    (facts : List Fact) : (facts.filter p).filter q.accepts = facts.filter q.accepts := by
  rw [List.filter_filter]
  refine List.filter_congr fun f _ => ?_
  rw [Bool.and_eq_left_iff_imp]
  exact h f

namespace WellIndexed

/-- What a filter finds, told by the facts alone. -/
theorem filter_eq (h : s.WellIndexed) (q : FactFilter) :
    s.filter q = if q.SeeksNoFile then [] else s.facts.filter q.accepts := by
  unfold Store.filter candidates
  cases hkind : q.kind with
  | some kind =>
    have hset : ¬q.SeeksNoFile := fun hseeks =>
      Option.some_ne_none kind (hkind.symm.trans hseeks.1)
    dsimp only
    rw [if_neg hset, h.ofKind]
    exact filter_accepts_of_imp (fun f hf => decide_eq_true (q.kind_of_accepts hkind hf)) s.facts
  | none =>
    cases hfile : q.file with
    | none =>
      have hset : ¬q.SeeksNoFile := fun hseeks =>
        Option.some_ne_none "" (hseeks.2.symm.trans hfile)
      rw [if_neg hset]
    | some file =>
      have hseeks : q.SeeksNoFile ↔ file = "" := by
        rw [FactFilter.SeeksNoFile, hkind, hfile, Option.some.injEq]
        exact and_iff_right rfl
      dsimp only
      rw [h.inFile]
      by_cases hempty : file = ""
      · rw [if_pos hempty, if_pos (hseeks.mpr hempty)]
        rfl
      · rw [if_neg hempty, if_neg (mt hseeks.mp hempty)]
        exact filter_accepts_of_imp (fun f hf => decide_eq_true (q.file_of_accepts hfile hf))
          s.facts

end WellIndexed

/-- **A filter finds exactly the facts that fulfil it**, in order, whatever has happened to a store
since it was empty, unless it goes by the index of files and seeks facts without a file. Then it
finds nothing, which is right only if no fact fulfils it. -/
theorem filter_after_run (changes : List Change) (q : FactFilter) :
    let s := empty.run changes
    s.filter q = (if q.SeeksNoFile then [] else s.facts.filter q.accepts) ∧
      (s.filter q = s.facts.filter q.accepts ↔
        (q.SeeksNoFile → ∀ f ∈ s.facts, q.accepts f = false)) := by
  intro s
  have h : s.WellIndexed := WellIndexed.empty.run changes
  refine ⟨h.filter_eq q, ?_⟩
  rw [h.filter_eq q]
  by_cases hseeks : q.SeeksNoFile
  · rw [if_pos hseeks, eq_comm, List.filter_eq_nil_iff]
    simp only [hseeks, true_implies, Bool.not_eq_true]
  · rw [if_neg hseeks]
    exact iff_of_true rfl fun hseeks' => absurd hseeks' hseeks

/-- A symbol without a file is the only fact, and a filter that asks for facts without a file does
not find it. -/
theorem fileless_fact_not_found :
    ¬∀ (changes : List Change) (q : FactFilter),
      (empty.run changes).filter q = (empty.run changes).facts.filter q.accepts := by
  intro h
  have hlength := congrArg List.length (h [.add [Fact.of .symbol "a"]] { file := some "" })
  revert hlength
  decide

end Store

end ArchFacts
