/-!
# Named fields

The fields of an object: pairs of a name and something, in the order of the names by code point
(which is also their order by UTF-8 bytes), each name once. Setting a field that is there replaces
what it holds.
-/

namespace ArchFacts.Json

/-- Names with what they hold. -/
abbrev Fields (α : Type) := List (String × α)

namespace Fields

variable {α : Type}

/-- Sets a field, at its place in the order. -/
def insert (key : String) (value : α) : Fields α → Fields α
  | [] => [(key, value)]
  | (k, v) :: rest =>
    if key < k then (key, value) :: (k, v) :: rest
    else if key = k then (key, value) :: rest
    else (k, v) :: insert key value rest

/-- What a field holds. -/
def get? (key : String) : Fields α → Option α
  | [] => none
  | (k, v) :: rest => if k = key then some v else get? key rest

/-- The fields that result from setting pairs one after the other: the last one of a name stays. -/
def ofPairs (pairs : List (String × α)) : Fields α :=
  pairs.foldl (fun fields pair => insert pair.1 pair.2 fields) []

theorem get?_insert (key name : String) (value : α) (fields : Fields α) :
    get? name (insert key value fields) = if key = name then some value else get? name fields := by
  induction fields with
  | nil => rfl
  | cons field rest ih =>
    obtain ⟨k, v⟩ := field
    rw [insert]
    by_cases hlt : key < k
    · rw [if_pos hlt]
      rfl
    · rw [if_neg hlt]
      by_cases hkey : key = k
      · subst hkey
        rw [if_pos rfl, get?, get?]
        split <;> rfl
      · rw [if_neg hkey, get?, get?, ih]
        by_cases hname : k = name
        · subst hname
          rw [if_pos rfl, if_neg hkey, if_pos rfl]
        · rw [if_neg hname, if_neg hname]

/-- The names stand in strictly ascending order. -/
def Ordered (fields : Fields α) : Prop :=
  fields.Pairwise fun a b => a.1 < b.1

instance (fields : Fields α) : Decidable (Ordered fields) :=
  inferInstanceAs (Decidable (List.Pairwise _ _))

end Fields

end ArchFacts.Json
