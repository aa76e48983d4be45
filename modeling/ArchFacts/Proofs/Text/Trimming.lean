import ArchFacts.Text.Blank
import Mathlib.Data.List.TakeWhile

/-!
# Trimming

Trimming takes away the blanks at both ends of a text and nothing else: what is left has no blank at
either end (`Bare`), and what was taken away are blanks (`exists_trim`). So blanks that are put
around a text are lost when it is trimmed (`trim_between`), and a text without blanks at its ends
stays as it is (`trim_eq_self`).
-/

namespace ArchFacts.Text

variable {cs front back : List Char}

/-- There is no blank at either end. -/
def Bare (cs : List Char) : Prop :=
  (∀ c ∈ cs.head?, isBlank c = false) ∧ ∀ c ∈ cs.getLast?, isBlank c = false

/-- All characters are blank. -/
def Blanks (cs : List Char) : Prop := ∀ c ∈ cs, isBlank c = true

theorem dropWhile_isBlank_append (h : Blanks front) (cs : List Char) :
    (front ++ cs).dropWhile isBlank = cs.dropWhile isBlank :=
  List.dropWhile_append_of_pos h

theorem trimEnd_append (h : Blanks back) (cs : List Char) : trimEnd (cs ++ back) = trimEnd cs := by
  have hreverse : Blanks back.reverse := fun c hc => h c (List.mem_reverse.mp hc)
  rw [trimEnd, List.reverse_append, dropWhile_isBlank_append hreverse, trimEnd]

/-- Trimming takes away blanks at both ends. -/
theorem trim_between (hfront : Blanks front) (hback : Blanks back) (cs : List Char) :
    trim (front ++ cs ++ back) = trim cs := by
  rw [trim, List.append_assoc, dropWhile_isBlank_append hfront, List.dropWhile_append]
  split
  case isTrue hempty =>
    -- nothing but blanks was there
    have hnil : cs.dropWhile isBlank = [] := List.isEmpty_iff.mp hempty
    have hall := dropWhile_isBlank_append hback []
    rw [List.append_nil] at hall
    rw [trim, hnil, hall]
    rfl
  case isFalse => exact trimEnd_append hback _

/-- What is left after trimming is bare, and what was taken away is blank. -/
theorem exists_trim (cs : List Char) :
    Bare (trim cs) ∧ ∃ front back, Blanks front ∧ Blanks back ∧ cs = front ++ trim cs ++ back := by
  have hstart : cs.takeWhile isBlank ++ cs.dropWhile isBlank = cs := List.takeWhile_append_dropWhile
  generalize hrest : cs.dropWhile isBlank = rest at hstart
  have hend : trimEnd rest ++ (rest.reverse.takeWhile isBlank).reverse = rest := by
    rw [trimEnd, ← List.reverse_append, List.takeWhile_append_dropWhile, List.reverse_reverse]
  have htrim : trim cs = trimEnd rest := by rw [trim, hrest]
  refine ⟨⟨fun c hc => ?_, fun c hc => ?_⟩, cs.takeWhile isBlank,
    (rest.reverse.takeWhile isBlank).reverse, fun c hc => ?_, fun c hc => ?_, ?_⟩
  · -- the first character that is left is the first one behind the blanks
    rw [htrim] at hc
    have hfirst : rest.head? = some c := by
      rw [← hend, List.head?_append, Option.mem_def.mp hc]
      rfl
    have hblank := List.head?_dropWhile_not isBlank cs
    rw [hrest, hfirst] at hblank
    simpa using hblank
  · rw [htrim, trimEnd, List.getLast?_reverse] at hc
    have hblank := List.head?_dropWhile_not isBlank rest.reverse
    rw [Option.mem_def.mp hc] at hblank
    simpa using hblank
  · exact List.mem_takeWhile_imp hc
  · exact List.mem_takeWhile_imp (List.mem_reverse.mp hc)
  · rw [htrim, List.append_assoc, hend, hstart]

theorem trim_eq_nil_iff : trim cs = [] ↔ Blanks cs := by
  constructor
  · intro hnil
    obtain ⟨-, front, back, hfront, hback, hcs⟩ := exists_trim cs
    rw [hnil, List.append_nil] at hcs
    intro c hc
    rw [hcs, List.mem_append] at hc
    exact hc.elim (hfront c) (hback c)
  · intro hblanks
    have hnone : Blanks [] := List.forall_mem_nil _
    have h := trim_between hblanks hnone []
    rw [List.append_nil, List.append_nil] at h
    exact h

theorem dropWhile_isBlank {cs : List Char} (h : ∀ c ∈ cs.head?, isBlank c = false) :
    cs.dropWhile isBlank = cs := by
  cases cs with
  | nil => rfl
  | cons c rest => exact List.dropWhile_cons_of_neg (by simp [h c rfl])

/-- Trimming takes nothing away between two ends that are not blank. -/
theorem trim_eq_self {cs : List Char} (hfirst : ∀ c ∈ cs.head?, isBlank c = false)
    (hlast : ∀ c ∈ cs.getLast?, isBlank c = false) : trim cs = cs := by
  rw [trim, trimEnd, dropWhile_isBlank hfirst]
  rw [dropWhile_isBlank (by rwa [List.head?_reverse]), List.reverse_reverse]

theorem trim_enclosed {first last : Char} (hfirst : isBlank first = false)
    (hlast : isBlank last = false) (inner : List Char) :
    trim (first :: (inner ++ [last])) = first :: (inner ++ [last]) := by
  refine trim_eq_self ?_ fun c hc => ?_
  · rintro _ ⟨⟩
    exact hfirst
  · rw [← List.cons_append, List.getLast?_concat] at hc
    obtain rfl := Option.some.inj hc
    exact hlast

end ArchFacts.Text
