/-!
# Directory trees

A tree holds files and directories, each at a place: the names that lead to it from the root. The
root is a directory that is always there. One place is the current directory, at which relative
paths start. `get?` is the view: what stands at a place after a change is what was put there, and
nothing else changes.
-/

namespace ArchFacts.Directory

/-- The names that lead from the root to something. -/
abbrev Place := List String

/-- What stands at a place. -/
inductive Entry where
  | file (bytes : List UInt8)
  | directory
  deriving DecidableEq, Repr

/-- Files and directories by their places. -/
structure Tree where
  /-- The current directory. -/
  current : Place
  entries : List (Place × Entry)
  deriving DecidableEq, Repr

namespace Tree

/-- The root alone, which is the current directory. -/
def empty : Tree := ⟨[], []⟩

/-- What stands at a place. -/
def get? (t : Tree) (place : Place) : Option Entry :=
  if place = [] then some .directory else t.entries.lookup place

/-- The tree with nothing at a place. -/
def erase (t : Tree) (place : Place) : Tree :=
  { t with entries := t.entries.filter (·.1 != place) }

/-- The tree with something at a place, instead of what stands there. -/
def put (t : Tree) (place : Place) (entry : Entry) : Tree :=
  { t with entries := (t.erase place).entries ++ [(place, entry)] }

theorem lookup_filter (entries : List (Place × Entry)) (place p : Place) :
    (entries.filter (·.1 != place)).lookup p = if p = place then none else entries.lookup p := by
  induction entries with
  | nil => simp
  | cons entry rest ih =>
    obtain ⟨q, e⟩ := entry
    by_cases hq : q = place
    · subst hq
      by_cases hp : p = q
      · simpa [hp] using ih
      · simpa [hp, List.lookup_cons, beq_false_of_ne hp] using ih
    · by_cases hp : p = q
      · subst hp
        simp [hq]
      · simpa [List.filter_cons, hq, List.lookup_cons, beq_false_of_ne hp] using ih

theorem get?_erase (t : Tree) (place p : Place) (h : place ≠ []) :
    (t.erase place).get? p = if p = place then none else t.get? p := by
  by_cases hp : p = []
  · subst hp
    simp [get?, Ne.symm h]
  · simp only [get?, if_neg hp, erase]
    exact lookup_filter t.entries place p

theorem get?_put (t : Tree) (place p : Place) (entry : Entry) (h : place ≠ []) :
    (t.put place entry).get? p = if p = place then some entry else t.get? p := by
  by_cases hp : p = []
  · subst hp
    simp [get?, Ne.symm h]
  · simp only [get?, if_neg hp, put, erase, List.lookup_append, lookup_filter]
    by_cases hq : p = place
    · simp [hq]
    · simp [hq, List.lookup_cons, beq_false_of_ne hq]

end Tree

end ArchFacts.Directory
