/-!
# Indexes

An index lists values under keys: the keys in the order in which they first came, and under each key
its values in the order in which they came. `get` is the view in which everything is stated: an
index made of pairs holds under a key exactly the values that the pairs give it.
-/

namespace ArchFacts

/-- Values under keys. -/
structure Index (κ α : Type) where
  entries : List (κ × List α)
  deriving Repr

namespace Index

variable {κ α : Type} [DecidableEq κ]

/-- The index without any key. -/
def empty : Index κ α := ⟨[]⟩

/-- Adds a value under a key of some entries. -/
def pushEntry (key : κ) (value : α) : List (κ × List α) → List (κ × List α)
  | [] => [(key, [value])]
  | (k, values) :: rest =>
    if k = key then (k, values ++ [value]) :: rest else (k, values) :: pushEntry key value rest

/-- Adds a value under a key, after the values it has. -/
def push (index : Index κ α) (key : κ) (value : α) : Index κ α :=
  ⟨pushEntry key value index.entries⟩

/-- The values under a key; none under a key that is not there. -/
def get (index : Index κ α) (key : κ) : List α :=
  (index.entries.lookup key).getD []

/-- The keys, in the order in which they first came. -/
def keys (index : Index κ α) : List κ := index.entries.map (·.1)

/-- Adds pairs of a key and a value, one after the other. -/
def pushAll (index : Index κ α) (pairs : List (κ × α)) : Index κ α :=
  pairs.foldl (fun index pair => index.push pair.1 pair.2) index

/-- The index of some pairs of a key and a value. -/
def ofPairs (pairs : List (κ × α)) : Index κ α := empty.pushAll pairs

theorem lookup_pushEntry (key k : κ) (value : α) (entries : List (κ × List α)) :
    ((pushEntry key value entries).lookup k).getD [] =
      (entries.lookup k).getD [] ++ if k = key then [value] else [] := by
  induction entries with
  | nil =>
    by_cases h : k = key
    · simp [pushEntry, h]
    · simp [pushEntry, List.lookup_cons, h, beq_false_of_ne h]
  | cons entry rest ih =>
    obtain ⟨k', values⟩ := entry
    by_cases hkey : k' = key
    · subst hkey
      by_cases h : k = k'
      · simp [pushEntry, h]
      · simp [pushEntry, List.lookup_cons, h, beq_false_of_ne h]
    · by_cases h : k = k'
      · subst h
        simp [pushEntry, hkey]
      · rw [pushEntry, if_neg hkey]
        simp only [List.lookup_cons, beq_false_of_ne h]
        exact ih

theorem get_push (index : Index κ α) (key k : κ) (value : α) :
    (index.push key value).get k = index.get k ++ if k = key then [value] else [] :=
  lookup_pushEntry key k value index.entries

theorem get_empty (k : κ) : (empty : Index κ α).get k = [] := rfl

theorem get_pushAll (index : Index κ α) (pairs : List (κ × α)) (k : κ) :
    (index.pushAll pairs).get k =
      index.get k ++ (pairs.filter fun pair => k = pair.1).map (·.2) := by
  induction pairs generalizing index with
  | nil => simp [pushAll]
  | cons pair rest ih =>
    have step : index.pushAll (pair :: rest) = (index.push pair.1 pair.2).pushAll rest := rfl
    rw [step, ih, get_push, List.append_assoc]
    by_cases h : k = pair.1 <;> simp [h]

end Index

end ArchFacts
