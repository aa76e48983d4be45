import ArchFacts.Proofs.Json.Scalars

/-!
# Numbers as they are written

A number is a sign, digits with no zero in front, and perhaps a fraction and an exponent
(`NumberText`). Each of these texts is read to its end as one number (`tokens_numberText`), and what
is read to its end as one number is such a text (`exists_numberText`). Only the text of an integer
of at most 64 bits is read as an integer (`NumberText.text_of_value`).
-/

namespace ArchFacts.Json

/-! ### Texts -/

/-- The text of some digits. -/
def digitsText (digits : List (Fin 10)) : List Char := digits.map fun d => Nat.digitChar d.val

/-- The exponent of a number: its mark, its sign if it has one, and its digits. -/
structure ExponentText where
  mark : Char
  /-- Whether the exponent is negative. -/
  sign : Option Bool
  digits : List (Fin 10)
  mark_eq : mark = 'e' ∨ mark = 'E'
  digits_ne_nil : digits ≠ []

/-- The text of a sign. -/
def signText : Option Bool → List Char
  | none => []
  | some false => ['+']
  | some true => ['-']

/-- The text of an exponent, if there is one. -/
def exponentText : Option ExponentText → List Char
  | none => []
  | some e => e.mark :: (signText e.sign ++ digitsText e.digits)

/-- The text of a fraction; without digits there is none. -/
def fractionText (digits : List (Fin 10)) : List Char :=
  if digits = [] then [] else '.' :: digitsText digits

/-- Whether digits are a whole number: there are some, and no zero stands in front of another. -/
def IsWhole (digits : List (Fin 10)) : Prop :=
  digits = [0] ∨ ∃ d rest, digits = d :: rest ∧ d ≠ 0

/-- A number as it is written. -/
structure NumberText where
  negative : Bool
  whole : List (Fin 10)
  fraction : List (Fin 10)
  exponent : Option ExponentText
  isWhole : IsWhole whole

/-- The text of a number behind its sign. -/
def NumberText.unsigned (n : NumberText) : List Char :=
  digitsText n.whole ++ (fractionText n.fraction ++ exponentText n.exponent)

/-- The text of a number. -/
def NumberText.text (n : NumberText) : List Char :=
  if n.negative then '-' :: n.unsigned else n.unsigned

/-! ### What is read of a text -/

/-- The number that digits are, after some number. -/
def appendDigits (n : Nat) (digits : List (Fin 10)) : Nat :=
  digits.foldl (fun n d => 10 * n + d.val) n

namespace Numeral

/-- A number of which the whole part has been read. -/
def ofWhole (negative : Bool) (digits : List (Fin 10)) : Numeral :=
  { start negative with
    place := if digits = [0] then .zero else .whole
    whole := (digits.map Fin.val).reverse }

/-- A number of which the fraction has been read, if there is one. -/
def withFraction (n : Numeral) (digits : List (Fin 10)) : Numeral :=
  if digits = [] then n
  else { n with place := .fraction, fraction := (digits.map Fin.val).reverse }

/-- A number of which the exponent has been read, if there is one. -/
def withExponent (n : Numeral) : Option ExponentText → Numeral
  | none => n
  | some e =>
    { n with
      place := .exponent
      exponentNegative := e.sign == some true || n.exponentNegative
      exponent := appendDigits 0 e.digits }

/-- A text takes a number that is being read to another one. -/
inductive Through : Numeral → List Char → Numeral → Prop where
  | here (n : Numeral) : Through n [] n
  | next {n n' n'' : Numeral} {c : Char} {text : List Char} (step : n.step c = .more n')
      (rest : Through n' text n'') : Through n (c :: text) n''

end Numeral

/-- The number that has been read at the end of a text. -/
def NumberText.numeral (n : NumberText) : Numeral :=
  ((Numeral.ofWhole n.negative n.whole).withFraction n.fraction).withExponent n.exponent

/-- The value of a number, unless it is beyond every double. -/
def NumberText.value (n : NumberText) : Option Number := n.numeral.value

/-! ### Digits -/

theorem digit?_eq_some {c : Char} {n : Nat} (h : digit? c = some n) :
    ∃ d : Fin 10, n = d ∧ c = Nat.digitChar d := by
  unfold digit? at h
  split at h
  case isFalse => cases h
  case isTrue hc =>
    obtain rfl := Option.some.inj h
    have hlow : '0'.toNat ≤ c.toNat := hc.1
    have hhigh : c.toNat ≤ '9'.toNat := hc.2
    have hzero : '0'.toNat = 48 := rfl
    have hnine : '9'.toNat = 57 := rfl
    refine ⟨⟨c.toNat - '0'.toNat, by omega⟩, rfl, ?_⟩
    have hchar : ∀ k < 10, Nat.digitChar k = Char.ofNat (48 + k) := by decide
    have hsum : 48 + (c.toNat - '0'.toNat) = c.toNat := by omega
    change c = Nat.digitChar (c.toNat - '0'.toNat)
    rw [hchar _ (by omega), hsum, Char.ofNat_toNat]

theorem digit?_digit (d : Fin 10) : digit? (Nat.digitChar d) = some d.val :=
  digit?_digitChar d d.isLt

namespace Numeral

variable {n n' n'' : Numeral} {text rest : List Char} {c : Char}

theorem Through.append (h : Through n text n') (hrest : Through n' rest n'') :
    Through n (text ++ rest) n'' := by
  induction h with
  | here => exact hrest
  | next step _ ih => exact .next step (ih hrest)

theorem Through.tokens (h : Through n text n') (rest : List Char) :
    (Reading.number n).tokens (text ++ rest) = (Reading.number n').tokens rest := by
  induction h with
  | here => rfl
  | next step _ ih =>
    rw [List.cons_append, tokens_cons, Reading.step, step]
    exact ih

/-- The places at which any number of digits may follow. -/
def Gathers (n : Numeral) : Prop := n.place = .whole ∨ n.place = .fraction ∨ n.place = .exponent

/-- A number after one more digit. -/
def push (n : Numeral) (d : Fin 10) : Numeral :=
  match n.place with
  | .fraction => { n with fraction := d :: n.fraction }
  | .exponent => { n with exponent := 10 * n.exponent + d }
  | _ => { n with whole := d :: n.whole }

theorem place_push (n : Numeral) (d : Fin 10) : (n.push d).place = n.place := by
  unfold push
  split <;> rfl

theorem gathers_push (h : n.Gathers) (d : Fin 10) : (n.push d).Gathers := by
  rwa [Gathers, place_push]

theorem Gathers.step (h : n.Gathers) (d : Fin 10) : n.step (Nat.digitChar d) = .more (n.push d) := by
  rcases h with h | h | h <;> simp [Numeral.step, Numeral.push, h, digit?_digit]

theorem Gathers.through (h : n.Gathers) (digits : List (Fin 10)) :
    Through n (digitsText digits) (digits.foldl push n) := by
  induction digits generalizing n with
  | nil => exact .here n
  | cons d digits ih => exact .next (h.step d) (ih (gathers_push h d))

/-- A text that does not begin with a digit. -/
def NoDigit (text : List Char) : Prop := ∀ c ∈ text.head?, digit? c = none

theorem noDigit_nil : NoDigit [] := fun _ h => absurd h (Option.not_mem_none _)

/-- Where digits may follow, all that follow are read. -/
theorem Gathers.of_through (h : n.Gathers) (hthrough : Through n text n') :
    ∃ digits rest, text = digitsText digits ++ rest ∧ NoDigit rest ∧
      Through (digits.foldl push n) rest n' := by
  induction hthrough with
  | here n => exact ⟨[], [], rfl, noDigit_nil, .here n⟩
  | @next n between n' c text hstep hrest ih =>
    cases hdigit : digit? c with
    | none =>
      refine ⟨[], c :: text, rfl, ?_, .next hstep hrest⟩
      rintro _ ⟨⟩
      exact hdigit
    | some k =>
      obtain ⟨d, rfl, rfl⟩ := digit?_eq_some hdigit
      obtain rfl := Progress.more.inj ((h.step d).symm.trans hstep)
      obtain ⟨digits, rest, rfl, hnone, hthrough⟩ := ih (gathers_push h d)
      exact ⟨d :: digits, rest, rfl, hnone, hthrough⟩

theorem foldl_push_whole (h : n.place = .whole) (digits : List (Fin 10)) :
    digits.foldl push n = { n with whole := (digits.map Fin.val).reverse ++ n.whole } := by
  induction digits generalizing n with
  | nil => rfl
  | cons d digits ih =>
    rw [List.foldl_cons, ih ((place_push n d).trans h)]
    simp [push, h]

theorem foldl_push_fraction (h : n.place = .fraction) (digits : List (Fin 10)) :
    digits.foldl push n = { n with fraction := (digits.map Fin.val).reverse ++ n.fraction } := by
  induction digits generalizing n with
  | nil => rfl
  | cons d digits ih =>
    rw [List.foldl_cons, ih ((place_push n d).trans h)]
    simp [push, h]

theorem foldl_push_exponent (h : n.place = .exponent) (digits : List (Fin 10)) :
    digits.foldl push n = { n with exponent := appendDigits n.exponent digits } := by
  induction digits generalizing n with
  | nil => rfl
  | cons d digits ih =>
    rw [List.foldl_cons, ih ((place_push n d).trans h)]
    simp [push, h, appendDigits]

/-! ### Whole parts -/

variable {negative : Bool}

theorem step_start {d : Fin 10} (hd : d ≠ 0) :
    (start negative).step (Nat.digitChar d) = .more (ofWhole negative [d]) := by
  have hdigit := digit?_digit d
  obtain ⟨k, hk⟩ := Nat.exists_eq_succ_of_ne_zero fun heq => hd (Fin.ext heq)
  rw [hk] at hdigit
  simp [Numeral.step, start, ofWhole, hk, hdigit, hd]

theorem place_ofWhole {d : Fin 10} (hd : d ≠ 0) (rest : List (Fin 10)) :
    (ofWhole negative (d :: rest)).place = .whole :=
  if_neg fun heq => hd (List.cons.inj heq).1

theorem ofWhole_cons {d : Fin 10} (hd : d ≠ 0) (rest : List (Fin 10)) :
    rest.foldl push (ofWhole negative [d]) = ofWhole negative (d :: rest) := by
  rw [foldl_push_whole (place_ofWhole hd [])]
  simp [ofWhole, hd]

theorem through_ofWhole {digits : List (Fin 10)} (h : IsWhole digits) :
    Through (start negative) (digitsText digits) (ofWhole negative digits) := by
  rcases h with rfl | ⟨d, rest, rfl, hd⟩
  · have hzero : (start negative).step '0' = .more (ofWhole negative [0]) := rfl
    exact .next hzero (.here _)
  · rw [← ofWhole_cons hd]
    exact .next (step_start hd) (Gathers.through (Or.inl (place_ofWhole hd [])) rest)

/-- Behind its sign a number begins with a whole part. -/
theorem of_through_start (h : Through (start negative) text n') (hcomplete : n'.isComplete = true) :
    ∃ digits rest, IsWhole digits ∧ text = digitsText digits ++ rest ∧ NoDigit rest ∧
      Through (ofWhole negative digits) rest n' := by
  cases h with
  | here => cases hcomplete
  | @next _ between _ c text hstep hrest =>
    cases hdigit : digit? c with
    | none => simp [Numeral.step, start, hdigit] at hstep
    | some k =>
      obtain ⟨d, rfl, rfl⟩ := digit?_eq_some hdigit
      by_cases hd : d = 0
      case pos =>
        subst hd
        obtain rfl := Progress.more.inj hstep
        refine ⟨[0], text, Or.inl rfl, rfl, ?_, hrest⟩
        -- no digit goes on with a zero
        cases hrest with
        | here => exact noDigit_nil
        | @next _ _ _ c _ hstep _ =>
          rintro _ ⟨⟩
          cases hnext : digit? c with
          | none => rfl
          | some k => simp [Numeral.step, hnext] at hstep
      case neg =>
        obtain rfl := Progress.more.inj ((step_start hd).symm.trans hstep)
        obtain ⟨digits, rest, rfl, hnone, hthrough⟩ :=
          Gathers.of_through (Or.inl (place_ofWhole hd [])) hrest
        rw [ofWhole_cons hd] at hthrough
        exact ⟨d :: digits, rest, Or.inr ⟨d, digits, rfl, hd⟩, rfl, hnone, hthrough⟩

/-! ### Fractions -/

/-- The places behind a whole part, at which a fraction may follow. -/
def AtWhole (n : Numeral) : Prop := n.place = .zero ∨ n.place = .whole

theorem atWhole_ofWhole (negative : Bool) (digits : List (Fin 10)) :
    (ofWhole negative digits).AtWhole := by
  by_cases h : digits = [0]
  · exact Or.inl (if_pos h)
  · exact Or.inr (if_neg h)

theorem AtWhole.step (h : n.AtWhole) (hdigit : digit? c = none) : n.step c = n.mark true c := by
  rcases h with h | h <;> simp [Numeral.step, h, hdigit]

theorem through_withFraction (h : n.AtWhole) (digits : List (Fin 10)) :
    Through n (fractionText digits) (n.withFraction digits) := by
  cases digits with
  | nil => exact .here n
  | cons d rest =>
    have hpoint : n.step '.' = .more { n with place := .point } := h.step rfl
    have hfirst : ({ n with place := .point } : Numeral).step (Nat.digitChar d) =
        .more ({ n with place := .fraction, fraction := [d.val] } : Numeral) := by
      simp [Numeral.step, digit?_digit]
    have hrest := Gathers.through
      (n := { n with place := .fraction, fraction := [d.val] }) (Or.inr (Or.inl rfl)) rest
    rw [foldl_push_fraction rfl] at hrest
    have hall : n.withFraction (d :: rest) =
        { n with place := .fraction, fraction := (rest.map Fin.val).reverse ++ [d.val] } := by
      simp [withFraction]
    rw [hall]
    exact .next hpoint (.next hfirst hrest)

/-- Behind a whole part comes a fraction, or no point. -/
theorem of_through_whole (h : n.AtWhole) (hthrough : Through n text n') (hnone : NoDigit text)
    (hcomplete : n'.isComplete = true) :
    ∃ digits rest, text = fractionText digits ++ rest ∧ NoDigit rest ∧
      (digits = [] → rest.head? ≠ some '.') ∧ Through (n.withFraction digits) rest n' := by
  cases hthrough with
  | here => exact ⟨[], [], rfl, noDigit_nil, fun _ => (Option.some_ne_none _).symm, .here n⟩
  | @next _ between _ c text hstep hrest =>
    by_cases hc : c = '.'
    case neg =>
      have hpoint : (c :: text).head? ≠ some '.' := fun hhead => hc (Option.some.inj hhead)
      exact ⟨[], c :: text, rfl, hnone, fun _ => hpoint, .next hstep hrest⟩
    case pos =>
      subst hc
      have hpoint : n.step '.' = .more { n with place := .point } := h.step rfl
      obtain rfl := Progress.more.inj (hpoint.symm.trans hstep)
      -- a digit follows the point
      cases hrest with
      | here => cases hcomplete
      | @next _ between _ c text hstep hrest =>
        cases hdigit : digit? c with
        | none => simp [Numeral.step, hdigit] at hstep
        | some k =>
          obtain ⟨d, rfl, rfl⟩ := digit?_eq_some hdigit
          simp only [Numeral.step, hdigit, Progress.more.injEq] at hstep
          subst hstep
          obtain ⟨digits, rest, rfl, hnone, hthrough⟩ :=
            Gathers.of_through (Or.inr (Or.inl rfl)) hrest
          rw [foldl_push_fraction rfl] at hthrough
          refine ⟨d :: digits, rest, rfl, hnone, fun h => absurd h (List.cons_ne_nil _ _), ?_⟩
          simpa [withFraction] using hthrough

/-! ### Exponents -/

/-- The places at which the mark of an exponent may follow. -/
def Marks (n : Numeral) : Prop := n.AtWhole ∨ n.place = .fraction

theorem Marks.withFraction (h : n.AtWhole) (digits : List (Fin 10)) :
    (n.withFraction digits).Marks := by
  unfold Numeral.withFraction
  split
  · exact Or.inl h
  · exact Or.inr rfl

theorem Marks.step (h : n.Marks) (hmark : c = 'e' ∨ c = 'E') :
    n.step c = .more { n with place := .mark } := by
  rcases h with (h | h) | h <;> rcases hmark with rfl | rfl <;>
    simp [Numeral.step, Numeral.mark, h, digit?]

/-- The places at which the first digit of an exponent may follow. -/
def AtExponent (n : Numeral) : Prop := n.place = .mark ∨ n.place = .markSign

theorem AtExponent.step (h : n.AtExponent) (d : Fin 10) : n.step (Nat.digitChar d) =
    .more { n with place := .exponent, exponent := d } := by
  rcases h with h | h <;> simp [Numeral.step, h, digit?_digit]

theorem AtExponent.through (h : n.AtExponent) {digits : List (Fin 10)} (hdigits : digits ≠ []) :
    Through n (digitsText digits)
      { n with place := .exponent, exponent := appendDigits 0 digits } := by
  obtain ⟨d, rest, rfl⟩ := List.exists_cons_of_ne_nil hdigits
  have hrest := Gathers.through
    (n := { n with place := .exponent, exponent := d }) (Or.inr (Or.inr rfl)) rest
  rw [foldl_push_exponent rfl] at hrest
  have hfirst : appendDigits 0 (d :: rest) = appendDigits d rest := by simp [appendDigits]
  rw [hfirst]
  exact .next (h.step d) hrest

/-- Digits are all that comes behind the mark of an exponent and its sign. -/
theorem AtExponent.of_through (h : n.AtExponent) (hthrough : Through n text n')
    (hfirst : ∃ d ∈ text.head?, (digit? d).isSome) : ∃ digits, digits ≠ [] ∧
      text = digitsText digits ∧
      n' = { n with place := .exponent, exponent := appendDigits 0 digits } := by
  obtain ⟨c, hc, hdigit⟩ := hfirst
  obtain ⟨k, hk⟩ := Option.isSome_iff_exists.mp hdigit
  obtain ⟨d, rfl, rfl⟩ := digit?_eq_some hk
  cases hthrough with
  | here => cases hc
  | @next _ between _ c text hstep hrest =>
    obtain rfl := Option.some.inj hc
    obtain rfl := Progress.more.inj ((h.step d).symm.trans hstep)
    obtain ⟨digits, rest, rfl, hnone, hthrough⟩ := Gathers.of_through (Or.inr (Or.inr rfl)) hrest
    rw [foldl_push_exponent rfl] at hthrough
    refine ⟨d :: digits, List.cons_ne_nil _ _, ?_⟩
    cases hthrough with
    | here => simp [digitsText, appendDigits]
    | @next _ _ _ c rest hstep _ => simp [Numeral.step, hnone c rfl] at hstep

theorem through_withExponent (h : n.Marks) (exponent : Option ExponentText) :
    Through n (exponentText exponent) (n.withExponent exponent) := by
  cases exponent with
  | none => exact .here n
  | some e =>
    refine .next (h.step e.mark_eq) ?_
    rw [withExponent]
    rcases e.sign with - | - | -
    · exact AtExponent.through (Or.inl rfl) e.digits_ne_nil
    · have hplus : ({ n with place := .mark } : Numeral).step '+' =
          .more { n with place := .markSign } := rfl
      exact .next hplus (AtExponent.through (Or.inr rfl) e.digits_ne_nil)
    · have hminus : ({ n with place := .mark } : Numeral).step '-' =
          .more { n with place := .markSign, exponentNegative := true } := rfl
      exact .next hminus (AtExponent.through (Or.inr rfl) e.digits_ne_nil)

/-- Behind a sign the digits of an exponent come. -/
theorem of_through_markSign (h : n.place = .markSign) (hthrough : Through n text n')
    (hcomplete : n'.isComplete = true) : ∃ digits, digits ≠ [] ∧ text = digitsText digits ∧
      n' = { n with place := .exponent, exponent := appendDigits 0 digits } := by
  refine AtExponent.of_through (Or.inr h) hthrough ?_
  cases hthrough with
  | here => simp [isComplete, h] at hcomplete
  | @next _ _ _ c _ hstep _ =>
    refine ⟨c, rfl, ?_⟩
    cases hdigit : digit? c with
    | none => simp [Numeral.step, h, hdigit] at hstep
    | some k => rfl

theorem Marks.eq_of_step (h : n.Marks) (hstep : n.step c = .more n') (hdigit : digit? c = none)
    (hpoint : n.AtWhole → c ≠ '.') : c = 'e' ∨ c = 'E' := by
  have hmark (allowed : Bool) (hallowed : allowed = true → c ≠ '.')
      (hstep : n.mark allowed c = .more n') : c = 'e' ∨ c = 'E' := by
    unfold Numeral.mark at hstep
    split at hstep
    case isTrue hc => exact absurd hc.1 (hallowed hc.2)
    case isFalse =>
      split at hstep
      case isTrue hc => exact hc
      case isFalse => cases hstep
  rcases h with h | h
  · exact hmark true (fun _ => hpoint h) ((h.step hdigit).symm.trans hstep)
  · refine hmark false (fun h => absurd h Bool.false_ne_true) ?_
    rw [← hstep]
    simp [Numeral.step, h, hdigit]

/-- Behind a whole part and its fraction an exponent comes, or nothing. -/
theorem Marks.of_through (h : n.Marks) (hthrough : Through n text n') (hnone : NoDigit text)
    (hpoint : n.AtWhole → text.head? ≠ some '.') (hcomplete : n'.isComplete = true) :
    ∃ exponent, text = exponentText exponent ∧ n' = n.withExponent exponent := by
  cases hthrough with
  | here => exact ⟨none, rfl, rfl⟩
  | @next _ between _ c text hstep hrest =>
    have hmark : c = 'e' ∨ c = 'E' := h.eq_of_step hstep (hnone c rfl) fun hwhole heq =>
      hpoint hwhole (congrArg some heq)
    obtain rfl := Progress.more.inj ((h.step hmark).symm.trans hstep)
    cases hrest with
    | here => cases hcomplete
    | @next _ between _ sign text hstep hrest =>
      cases hdigit : digit? sign with
      | some k =>
        obtain ⟨digits, hdigits, htext, rfl⟩ := AtExponent.of_through (Or.inl rfl)
          (.next hstep hrest) ⟨sign, rfl, Option.isSome_iff_exists.mpr ⟨k, hdigit⟩⟩
        exact ⟨some ⟨c, none, digits, hmark, hdigits⟩, congrArg (c :: ·) htext, rfl⟩
      | none =>
        simp only [Numeral.step, hdigit] at hstep
        split at hstep
        case isTrue hplus =>
          obtain rfl := Progress.more.inj hstep
          obtain ⟨digits, hdigits, rfl, rfl⟩ := of_through_markSign rfl hrest hcomplete
          exact ⟨some ⟨c, some false, digits, hmark, hdigits⟩, hplus ▸ rfl, rfl⟩
        case isFalse =>
          split at hstep
          case isTrue hminus =>
            obtain rfl := Progress.more.inj hstep
            obtain ⟨digits, hdigits, rfl, rfl⟩ := of_through_markSign rfl hrest hcomplete
            exact ⟨some ⟨c, some true, digits, hmark, hdigits⟩, hminus ▸ rfl, rfl⟩
          case isFalse => cases hstep

end Numeral

/-! ### Whole numbers of a text -/

open Numeral in
/-- A number is read from its text. -/
theorem NumberText.through (n : NumberText) :
    Through (.start n.negative) n.unsigned n.numeral := by
  have hwhole := atWhole_ofWhole n.negative n.whole
  exact (through_ofWhole n.isWhole).append ((through_withFraction hwhole _).append
    (through_withExponent (.withFraction hwhole _) _))

theorem NumberText.isComplete (n : NumberText) : n.numeral.isComplete = true := by
  have hwhole := Numeral.atWhole_ofWhole n.negative n.whole
  unfold NumberText.numeral
  cases n.exponent with
  | some e => rfl
  | none =>
    rw [Numeral.withExponent]
    rcases Numeral.Marks.withFraction hwhole n.fraction with (h | h) | h <;>
      simp [Numeral.isComplete, h]

open Numeral in
/-- What is read as a number is the text of one. -/
theorem exists_numberText {negative : Bool} {text : List Char} {n' : Numeral}
    (h : Through (.start negative) text n') (hcomplete : n'.isComplete = true) :
    ∃ n : NumberText, n.negative = negative ∧ n.unsigned = text ∧ n.numeral = n' := by
  obtain ⟨whole, rest, hisWhole, rfl, hnone, hwhole⟩ := of_through_start h hcomplete
  obtain ⟨fraction, rest, rfl, hnone, hpoint, hfraction⟩ :=
    of_through_whole (atWhole_ofWhole negative whole) hwhole hnone hcomplete
  have hmarks := Marks.withFraction (atWhole_ofWhole negative whole) fraction
  obtain ⟨exponent, rfl, rfl⟩ := hmarks.of_through hfraction hnone
    (fun hplace => hpoint (by
      by_contra hne
      simp [AtWhole, Numeral.withFraction, hne] at hplace)) hcomplete
  exact ⟨⟨negative, whole, fraction, exponent, hisWhole⟩, rfl, rfl, rfl⟩

theorem NumberText.unsigned_eq_cons (n : NumberText) :
    ∃ (d : Fin 10) (rest : List Char), n.unsigned = Nat.digitChar d :: rest := by
  unfold NumberText.unsigned
  rcases n.isWhole with h | ⟨d, rest, h, -⟩
  · rw [h]
    exact ⟨0, _, rfl⟩
  · rw [h]
    exact ⟨d, _, rfl⟩

/-- A number is one token, in front of what may follow it. -/
theorem tokens_numberText (n : NumberText) {rest : List Char} (hrest : Ended rest) :
    tokens (n.text ++ rest) = n.numeral.token :: tokens rest := by
  have hread := n.through.tokens rest
  rw [tokens_number n.isComplete hrest] at hread
  unfold NumberText.text
  cases hsign : n.negative with
  | true =>
    rw [hsign] at hread
    exact hread
  | false =>
    rw [hsign] at hread
    obtain ⟨d, digits, hunsigned⟩ := n.unsigned_eq_cons
    rw [hunsigned, List.cons_append, tokens_cons] at hread
    rw [if_neg Bool.false_ne_true, hunsigned, List.cons_append, tokens, tokens_cons, ← hread]
    exact congrArg (fun next => next.2 ++ next.1.tokens (digits ++ rest)) (begin_digitChar d.isLt)

/-! ### Integers -/

theorem gather_eq_nil {significand n : Nat} {digits : List (Fin 10)}
    (h : gather significand (digits.map Fin.val) = (n, [])) :
    n = appendDigits significand digits := by
  induction digits generalizing significand with
  | nil => exact (congrArg Prod.fst h).symm
  | cons d digits ih =>
    rw [List.map_cons, gather] at h
    split at h
    case isTrue => exact ih h
    case isFalse => cases (Prod.mk.inj h).2

/-- The digits of a number with more digits behind them. -/
theorem toDigits_appendDigits {n : Nat} (hpos : 0 < n) (digits : List (Fin 10)) :
    Nat.toDigits 10 (appendDigits n digits) = Nat.toDigits 10 n ++ digitsText digits := by
  induction digits generalizing n with
  | nil => exact (List.append_nil _).symm
  | cons d digits ih =>
    have hdigits : Nat.toDigits 10 (10 * n + d) = Nat.toDigits 10 n ++ [Nat.digitChar d] := by
      have hdiv : (10 * n + d) / 10 = n := by omega
      have hmod : (10 * n + d) % 10 = d := by omega
      rw [Nat.toDigits_of_base_le (by decide) (by omega), hdiv, hmod]
    have hmore := ih (n := 10 * n + d) (by omega)
    rw [hdigits, List.append_assoc] at hmore
    exact hmore

/-- Digits are those of the number that they are. -/
theorem IsWhole.toDigits {digits : List (Fin 10)} (h : IsWhole digits) :
    Nat.toDigits 10 (appendDigits 0 digits) = digitsText digits := by
  rcases h with rfl | ⟨d, rest, rfl, hd⟩
  · rfl
  · have hpos : 0 < d.val := Nat.pos_of_ne_zero fun heq => hd (Fin.ext heq)
    have hfirst : appendDigits 0 (d :: rest) = appendDigits d rest := by simp [appendDigits]
    rw [hfirst, toDigits_appendDigits hpos, Nat.toDigits_of_lt_base d.isLt]
    rfl

namespace NumberText

variable (n : NumberText)

@[simp]
theorem negative_numeral : n.numeral.negative = n.negative := by
  unfold numeral Numeral.withFraction
  cases n.exponent <;> split <;> rfl

@[simp]
theorem whole_numeral : n.numeral.whole = (n.whole.map Fin.val).reverse := by
  unfold numeral Numeral.withFraction
  cases n.exponent <;> split <;> rfl

@[simp]
theorem fraction_numeral : n.numeral.fraction = (n.fraction.map Fin.val).reverse := by
  have hnone (fraction : List (Fin 10)) :
      ((Numeral.ofWhole n.negative n.whole).withFraction fraction).fraction =
        (fraction.map Fin.val).reverse := by
    unfold Numeral.withFraction
    split
    case isTrue h => rw [h]; rfl
    case isFalse => rfl
  unfold numeral
  cases n.exponent <;> exact hnone n.fraction

variable {n}

/-- What has neither fraction nor exponent and fits is an integer. -/
theorem eq_of_isInteger {left : List Nat}
    (h : (n.numeral.fraction.isEmpty && n.numeral.place != .exponent && left.isEmpty) = true) :
    n.fraction = [] ∧ n.exponent = none ∧ left = [] := by
  simp only [Bool.and_eq_true, List.isEmpty_iff, fraction_numeral, List.reverse_eq_nil_iff,
    List.map_eq_nil_iff, bne_iff_ne] at h
  obtain ⟨⟨hfraction, hplace⟩, hleft⟩ := h
  refine ⟨hfraction, ?_, hleft⟩
  cases hexponent : n.exponent with
  | none => rfl
  | some e => exact absurd (by rw [numeral, hexponent]; rfl) hplace

/-- Only what is written as an integer has an integer as its value. -/
theorem text_of_value {k : Int} (h : n.value = some (.int k)) : n.text = intText k := by
  have hunsigned (hfraction : n.fraction = []) (hexponent : n.exponent = none) :
      n.unsigned = Nat.toDigits 10 (appendDigits 0 n.whole) := by
    rw [unsigned, hfraction, hexponent, n.isWhole.toDigits]
    exact List.append_nil _
  unfold value Numeral.value at h
  simp only [whole_numeral, List.reverse_reverse, negative_numeral] at h
  rcases hgather : gather 0 (n.whole.map Fin.val) with ⟨whole, left⟩
  simp only [hgather] at h
  split at h
  case isTrue hinteger =>
    obtain ⟨hinteger, hpositive⟩ := Bool.and_eq_true_iff.mp hinteger
    obtain ⟨hfraction, hexponent, rfl⟩ := eq_of_isInteger hinteger
    obtain rfl := Number.int.inj (Option.some.inj h)
    obtain rfl := gather_eq_nil hgather
    have hsign : n.negative = false := by simpa using hpositive
    rw [text, hsign, if_neg Bool.false_ne_true, hunsigned hfraction hexponent, intText,
      if_neg (Int.not_lt.mpr (Int.natCast_nonneg _)), Int.natAbs_natCast]
  case isFalse hnot =>
    split at h
    case isTrue hnegative =>
      obtain ⟨hnegative, -⟩ := Bool.and_eq_true_iff.mp hnegative
      obtain ⟨hinteger, hpos⟩ := Bool.and_eq_true_iff.mp hnegative
      have hsign : n.negative = true := by
        cases hsign : n.negative with
        | true => rfl
        | false => exact absurd (Bool.and_eq_true_iff.mpr ⟨hinteger, by rw [hsign]; rfl⟩) hnot
      obtain ⟨hfraction, hexponent, rfl⟩ := eq_of_isInteger hinteger
      obtain rfl := Number.int.inj (Option.some.inj h)
      obtain rfl := gather_eq_nil hgather
      have hne : appendDigits 0 n.whole ≠ 0 := by simpa using hpos
      rw [text, if_pos hsign, hunsigned hfraction hexponent, intText, if_pos (by omega),
        Int.natAbs_neg, Int.natAbs_natCast]
    case isFalse =>
      obtain ⟨x, -, hx⟩ := Option.map_eq_some_iff.mp h
      cases hx

end NumberText

end ArchFacts.Json
