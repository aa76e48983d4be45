import ArchFacts.Json.Printer
import ArchFacts.Json.Reader
import Mathlib.Tactic.IntervalCases

/-!
# The tokens of written strings and numbers

A written string or word is a token whatever comes after it. A written number is one only in front
of something that ends it, which everything does that may follow a value (`Ended`): a bracket, a
comma, a space or the end of the text.
-/

namespace ArchFacts.Json

open Reading

/-- A character that may follow a value. -/
def endsValue (c : Char) : Bool :=
  isSpace c || c == ',' || c == ']' || c == '\x7d'

/-- A text that may follow a value. -/
def Ended (rest : List Char) : Prop :=
  ∀ c ∈ rest.head?, endsValue c = true

theorem tokens_cons (reading : Reading) (c : Char) (rest : List Char) :
    reading.tokens (c :: rest) = (reading.step c).2 ++ (reading.step c).1.tokens rest := rfl

/-! ### Strings -/

/-- A character as the reader finds it: one that was written by its number still is a number. -/
def Piece.written (c : Char) : Piece :=
  if c.toNat < 0x20 ∧ c ∉ ['\n', '\r', '\t', '\x08', '\x0c'] then .unit c.toNat else .char c

/-- A string as the reader finds it. -/
def Quoted.written (s : String) : Quoted := ⟨s.toList.map Piece.written, none⟩

theorem hexDigit?_hexDigit : ∀ n < 16, hexDigit? (hexDigit n) = some n := by decide

theorem utf8Size_of_hexDigit? {c : Char} {d : Nat} (h : hexDigit? c = some d) : c.utf8Size = 1 := by
  refine Char.utf8Size_eq_one_iff.mpr ?_
  unfold hexDigit? at h
  split at h
  case isTrue hc => exact UInt32.le_trans hc.2 (by decide)
  case isFalse =>
    split at h
    case isTrue hc => exact UInt32.le_trans hc.2 (by decide)
    case isFalse =>
      split at h
      case isTrue hc => exact UInt32.le_trans hc.2 (by decide)
      case isFalse => cases h

/-- A hexadecimal digit is one of the four bytes of a number. -/
theorem stepNumbered_of_hexDigit? {c : Char} {d : Nat} (h : hexDigit? c = some d)
    (done : List Piece) (bytes code : Nat) :
    stepNumbered done bytes (some code) c =
      if bytes + 1 < 4 then (.numbered done (bytes + 1) (some (16 * code + d)), [])
      else (.string (.unit (16 * code + d) :: done), []) := by
  simp [stepNumbered, utf8Size_of_hexDigit? h, h]

/-- A character written by a number of two digits is found by this number. -/
theorem tokens_numbered (done : List Piece) {n : Nat} (hn : n < 0x20) (rest : List Char) :
    (Reading.string done).tokens
        ('\\' :: 'u' :: '0' :: '0' :: hexDigit (n / 16) :: hexDigit (n % 16) :: rest) =
      (Reading.string (.unit n :: done)).tokens rest := by
  -- the two zeros are read by evaluation, the digits after them by the lemma
  change (Reading.numbered done 2 (some 0)).tokens
    (hexDigit (n / 16) :: hexDigit (n % 16) :: rest) = _
  rw [tokens_cons, step, stepNumbered_of_hexDigit? (hexDigit?_hexDigit _ (by omega))]
  rw [if_pos (by decide)]
  simp only [List.nil_append]
  rw [tokens_cons, step,
    stepNumbered_of_hexDigit? (hexDigit?_hexDigit _ (Nat.mod_lt n (by decide)))]
  rw [if_neg (by decide)]
  simp only [List.nil_append]
  have hcode : 16 * (16 * 0 + n / 16) + n % 16 = n := by omega
  rw [hcode]

theorem tokens_escape (done : List Piece) (c : Char) (rest : List Char) :
    (Reading.string done).tokens (escape c ++ rest) =
      (Reading.string (.written c :: done)).tokens rest := by
  unfold escape
  split
  · rfl
  · rfl
  · rfl
  · rfl
  · rfl
  · rfl
  · rfl
  · next hquote hbackslash hn hr ht hb hf =>
    by_cases hlow : c.toNat < 0x20
    · have hwritten : Piece.written c = .unit c.toNat := by
        refine if_pos ⟨hlow, ?_⟩
        simp only [List.mem_cons, List.not_mem_nil, or_false, not_or]
        exact ⟨hn, hr, ht, hb, hf⟩
      rw [if_pos hlow, hwritten]
      exact tokens_numbered done hlow rest
    · have hwritten : Piece.written c = .char c := if_neg fun h => hlow h.1
      have hstep : (Reading.string done).step c = (.string (.char c :: done), []) := by
        rw [step]
        · exact if_neg hlow
        · exact hquote
        · exact hbackslash
      rw [if_neg hlow, hwritten, List.singleton_append, tokens_cons, hstep]
      rfl

theorem tokens_flatMap_escape (done : List Piece) (cs rest : List Char) :
    (Reading.string done).tokens (cs.flatMap escape ++ rest) =
      (Reading.string ((cs.map Piece.written).reverse ++ done)).tokens rest := by
  induction cs generalizing done with
  | nil => rfl
  | cons c cs ih =>
    rw [List.flatMap_cons, List.append_assoc, tokens_escape, ih]
    simp

/-- A written string is one token. -/
theorem tokens_quote (s : String) (rest : List Char) :
    tokens (quote s ++ rest) = .string (.written s) :: tokens rest := by
  have hquote : quote s ++ rest = '"' :: (s.toList.flatMap escape ++ '"' :: rest) := by
    simp [quote]
  have hbegin : tokens ('"' :: (s.toList.flatMap escape ++ '"' :: rest)) =
      (Reading.string []).tokens (s.toList.flatMap escape ++ '"' :: rest) := rfl
  rw [hquote, hbegin, tokens_flatMap_escape, List.append_nil]
  change Token.string ⟨(s.toList.map Piece.written).reverse.reverse, none⟩ :: _ = _
  rw [List.reverse_reverse]
  rfl

/-- A number that is no half of a surrogate pair is a character. -/
theorem joinPieces_unit {n : Nat} (hhigh : isHigh n = false) (hlow : isLow n = false)
    (cut : Option Fault) (pieces : List Piece) :
    joinPieces cut (.unit n :: pieces) = (joinPieces cut pieces).map (Char.ofNat n :: ·) := by
  -- what the next piece is would only matter to half a pair
  rcases pieces with - | ⟨c | m, rest⟩
  · simp [joinPieces, hhigh, hlow]
  · simp [joinPieces, hhigh, hlow]
  · simp [joinPieces, hhigh, hlow]

theorem joinPieces_written (c : Char) (cut : Option Fault) (pieces : List Piece) :
    joinPieces cut (.written c :: pieces) = (joinPieces cut pieces).map (c :: ·) := by
  unfold Piece.written
  split
  · next h =>
    have hhigh : isHigh c.toNat = false := by simp [isHigh]; omega
    have hlow : isLow c.toNat = false := by simp [isLow]; omega
    rw [joinPieces_unit hhigh hlow, Char.ofNat_toNat]
  · rw [joinPieces]

/-- A written string stands for the string. -/
theorem text_written (s : String) : (Quoted.written s).text = .ok s := by
  have hjoin (cs : List Char) : joinPieces none (cs.map Piece.written) = .ok cs := by
    induction cs with
    | nil => rfl
    | cons c cs ih =>
      rw [List.map_cons, joinPieces_written, ih]
      rfl
  rw [Quoted.text, Quoted.written, hjoin]
  exact congrArg Except.ok String.ofList_toList

/-! ### Numbers -/

theorem digit?_digitChar : ∀ d < 10, digit? (Nat.digitChar d) = some d := by decide

/-- What ends a value does not go on with a number. -/
theorem step_of_endsValue {n : Numeral} (hcomplete : n.isComplete = true) {c : Char}
    (hc : endsValue c = true) : n.step c = .complete := by
  have hends : digit? c = none ∧ c ≠ '.' ∧ c ≠ 'e' ∧ c ≠ 'E' := by
    simp only [endsValue, isSpace, Bool.or_eq_true, beq_iff_eq] at hc
    rcases hc with ((((((rfl | rfl) | rfl) | rfl) | rfl) | rfl) | rfl) <;> decide
  obtain ⟨hdigit, hpoint, he, hE⟩ := hends
  unfold Numeral.isComplete at hcomplete
  split at hcomplete
  case h_5 | h_6 | h_7 | h_8 => cases hcomplete
  all_goals
    next hplace => simp [Numeral.step, Numeral.mark, hplace, hdigit, hpoint, he, hE]

/-- A number is complete in front of what ends it. -/
theorem tokens_number {n : Numeral} (hcomplete : n.isComplete = true) {rest : List Char}
    (hrest : Ended rest) : (Reading.number n).tokens rest = n.token :: tokens rest := by
  cases rest with
  | nil => exact if_pos hcomplete
  | cons c rest =>
    have hstep := step_of_endsValue hcomplete (hrest c rfl)
    rw [tokens_cons, step, hstep]
    rfl

theorem gather_concat {significand n d : Nat} {digits : List Nat}
    (h : gather significand digits = (n, [])) (hd : 10 * n + d ≤ greatestSignificand) :
    gather significand (digits ++ [d]) = (10 * n + d, []) := by
  induction digits generalizing significand with
  | nil =>
    obtain rfl : significand = n := congrArg Prod.fst h
    exact if_pos hd
  | cons e digits ih =>
    rw [gather] at h
    rw [List.cons_append, gather]
    split at h
    · next hfits =>
      rw [if_pos hfits]
      exact ih h
    · cases h

/-- The digits of a positive number are gathered into the number. -/
theorem tokens_toDigits (negative : Bool) {n : Nat} (hpos : 0 < n)
    (hn : n ≤ greatestSignificand) :
    ∃ digits, gather 0 digits.reverse = (n, []) ∧ ∀ rest,
      (Reading.number (.start negative)).tokens (Nat.toDigits 10 n ++ rest) =
        (Reading.number { Numeral.start negative with place := .whole, whole := digits }).tokens
          rest := by
  induction n using Nat.strongRecOn with
  | ind n ih =>
    by_cases hlt : n < 10
    · refine ⟨[n], by simp [gather, hn], fun rest => ?_⟩
      have hstep : (Numeral.start negative).step (Nat.digitChar n) =
          .more { Numeral.start negative with place := .whole, whole := [n] } := by
        obtain ⟨m, rfl⟩ := Nat.exists_eq_succ_of_ne_zero (Nat.ne_of_gt hpos)
        simp [Numeral.step, Numeral.start, digit?_digitChar _ hlt]
      rw [Nat.toDigits_of_lt_base hlt, List.singleton_append, tokens_cons, step, hstep]
      rfl
    · -- the last digit is gathered after those of the tenth part
      obtain ⟨digits, hgather, htokens⟩ := ih (n / 10) (by omega) (by omega) (by omega)
      have hdigit := digit?_digitChar (n % 10) (Nat.mod_lt n (by decide))
      have hvalue : 10 * (n / 10) + n % 10 = n := Nat.div_add_mod n 10
      refine ⟨n % 10 :: digits, ?_, fun rest => ?_⟩
      · have hmore := gather_concat hgather (hvalue.symm ▸ hn)
        rw [hvalue] at hmore
        rw [List.reverse_cons]
        exact hmore
      · rw [Nat.toDigits_of_base_le (by decide) (Nat.le_of_not_lt hlt), List.append_assoc, htokens]
        rw [List.singleton_append, tokens_cons, step]
        simp [Numeral.step, hdigit]

/-- A digit between tokens begins a number. -/
theorem begin_digitChar {d : Nat} (hd : d < 10) :
    begin (Nat.digitChar d) = (Reading.number (.start false)).step (Nat.digitChar d) := by
  interval_cases d <;> rfl

theorem toDigits_eq_cons (n : Nat) :
    ∃ d, d < 10 ∧ ∃ rest, Nat.toDigits 10 n = Nat.digitChar d :: rest := by
  induction n using Nat.strongRecOn with
  | ind n ih =>
    by_cases hlt : n < 10
    · exact ⟨n, hlt, [], Nat.toDigits_of_lt_base hlt⟩
    · obtain ⟨d, hd, rest, hrest⟩ := ih (n / 10) (by omega)
      rw [Nat.toDigits_of_base_le (by decide) (Nat.le_of_not_lt hlt), hrest]
      exact ⟨d, hd, _, rfl⟩

/-- Digits between tokens are read as a number without a sign. -/
theorem tokens_toDigits_append (n : Nat) (rest : List Char) :
    tokens (Nat.toDigits 10 n ++ rest) =
      (Reading.number (.start false)).tokens (Nat.toDigits 10 n ++ rest) := by
  obtain ⟨d, hd, digits, hdigits⟩ := toDigits_eq_cons n
  rw [hdigits, List.cons_append, tokens_cons, ← begin_digitChar hd]
  rfl

/-- The token of an integer that was read without a fraction or an exponent. -/
theorem token_whole (negative : Bool) {n : Nat} {digits : List Nat}
    (h : gather 0 digits.reverse = (n, [])) (hsign : negative = true → 0 < n ∧ 2 * n ≤ UInt64.size) :
    Numeral.token { Numeral.start negative with place := .whole, whole := digits } =
      .number (.int (if negative then -n else n)) := by
  cases negative with
  | false => simp [Numeral.token, Numeral.value, Numeral.start, h]
  | true =>
    obtain ⟨hpos, hlarge⟩ := hsign rfl
    have hne : n ≠ 0 := Nat.ne_of_gt hpos
    simp [Numeral.token, Numeral.value, Numeral.start, h, hne, hlarge]

/-- A written integer of at most 64 bits is one token. -/
theorem tokens_intText {n : Int} (hlow : -UInt64.size ≤ 2 * n) (hhigh : n < UInt64.size)
    {rest : List Char} (hrest : Ended rest) :
    tokens (intText n ++ rest) = .number (.int n) :: tokens rest := by
  have hgreatest : greatestSignificand + 1 = UInt64.size := by decide
  rcases Int.lt_trichotomy n 0 with hneg | rfl | hpos
  · obtain ⟨digits, hgather, htokens⟩ :=
      tokens_toDigits true (n := n.natAbs) (by omega) (by omega)
    have hminus : tokens ('-' :: (Nat.toDigits 10 n.natAbs ++ rest)) =
        (Reading.number (.start true)).tokens (Nat.toDigits 10 n.natAbs ++ rest) := rfl
    rw [intText, if_pos hneg, List.cons_append, hminus, htokens]
    rw [tokens_number rfl hrest, token_whole true hgather fun _ => by omega]
    have habs : -(n.natAbs : Int) = n := by omega
    rw [if_pos rfl, habs]
  · -- a zero in front has a place of its own, after which no digit may come
    have hzero : tokens ('0' :: rest) =
        (Reading.number { Numeral.start false with place := .zero, whole := [0] }).tokens rest := rfl
    change tokens ('0' :: rest) = _
    rw [hzero, tokens_number rfl hrest]
    rfl
  · obtain ⟨digits, hgather, htokens⟩ :=
      tokens_toDigits false (n := n.natAbs) (by omega) (by omega)
    rw [intText, if_neg (by omega), tokens_toDigits_append, htokens]
    rw [tokens_number rfl hrest, token_whole false hgather (by simp)]
    have habs : (n.natAbs : Int) = n := by omega
    rw [if_neg (by decide), habs]

end ArchFacts.Json
