import ArchFacts.Proofs.Records.Lines
import Mathlib.Data.List.Induction

/-!
# What a reader makes of the lines of a stream

Any bytes at all are a stream: the pieces that end after a line feed are its lines, and a last piece
without one is a line too (`linesOf_splitLines`). A line is no text, or blank, or holds a record
between blanks (`line_cases`). What a reader makes of a stream is told by its lines alone:

* A call answers the first line that is not blank, wherever the reader stands, and leaves the lines
  after it to later calls (`Answers`, `answers_next`). A faulty line costs nothing but itself.
* Reading everything gives the records of all lines, or the fault of the first line that has one
  (`Yields`, `Stops`, `all_eq_ok_iff`, `all_eq_error_iff`).

These are relations on lines with one case for each kind of line. That some case applies is a fact
about lines alone (`exists_answers`, `yields_or_stops`), and the reader does in each of them what the
relation says, so it does nothing else.
-/

namespace ArchFacts.Records

open Text

/-! ### Lines -/

/-- Bytes by their lines: no line has a line feed in it, and each of them ends with one, but for a
last line that is not empty. -/
structure LinesOf (bytes : List UInt8) (lines : List (List UInt8)) : Prop where
  oneLine : ∀ line ∈ lines, 10 ∉ line
  joined : lines.flatMap (· ++ [10]) = bytes ∨
    ∃ before last, lines = before ++ [last] ∧ last ≠ [] ∧
      before.flatMap (· ++ [10]) ++ last = bytes

theorem splitLines_eq_nil_iff {bytes : List UInt8} : splitLines bytes = [] ↔ bytes = [] := by
  cases bytes with
  | nil => exact iff_of_true rfl rfl
  | cons b rest =>
    refine iff_of_false ?_ (List.cons_ne_nil _ _)
    rw [splitLines]
    split
    · exact List.cons_ne_nil _ _
    · split <;> exact List.cons_ne_nil _ _

theorem splitLines_cons_of_ne {b : UInt8} (hb : b ≠ 10) {rest line : List UInt8}
    {others : List (List UInt8)} (h : splitLines rest = line :: others) :
    splitLines (b :: rest) = (b :: line) :: others := by
  rw [splitLines, if_neg hb, h]

theorem linesOf_splitLines (bytes : List UInt8) : LinesOf bytes (splitLines bytes) := by
  induction bytes with
  | nil => exact ⟨List.forall_mem_nil _, Or.inl rfl⟩
  | cons b rest ih =>
    by_cases hb : b = 10
    · subst hb
      have hsplit : splitLines (10 :: rest) = [] :: splitLines rest := if_pos rfl
      rw [hsplit]
      refine ⟨List.forall_mem_cons.mpr ⟨List.not_mem_nil, ih.oneLine⟩, ?_⟩
      rcases ih.joined with hall | ⟨before, last, hlines, hlast, hall⟩
      · exact Or.inl (by rw [List.flatMap_cons, hall]; rfl)
      · refine Or.inr ⟨[] :: before, last, by rw [hlines]; rfl, hlast, ?_⟩
        rw [List.flatMap_cons, List.append_assoc, hall]
        rfl
    · cases hrest : splitLines rest with
      | nil =>
        obtain rfl := splitLines_eq_nil_iff.mp hrest
        have hsplit : splitLines [b] = [[b]] := if_neg hb
        rw [hsplit]
        refine ⟨List.forall_mem_singleton.mpr (by simpa using Ne.symm hb), Or.inr ⟨[], [b], rfl, ?_⟩⟩
        exact ⟨List.cons_ne_nil _ _, rfl⟩
      | cons line others =>
        rw [hrest] at ih
        obtain ⟨hline, hothers⟩ := List.forall_mem_cons.mp ih.oneLine
        rw [splitLines_cons_of_ne hb hrest]
        refine ⟨List.forall_mem_cons.mpr ⟨by simp [Ne.symm hb, hline], hothers⟩, ?_⟩
        rcases ih.joined with hall | ⟨before, last, hlines, hlast, hall⟩
        · exact Or.inl (by rw [← hall, List.flatMap_cons, List.flatMap_cons]; rfl)
        · cases before with
          | nil =>
            obtain ⟨rfl, rfl⟩ := List.cons.inj hlines
            exact Or.inr ⟨[], b :: line, rfl, List.cons_ne_nil _ _, congrArg (b :: ·) hall⟩
          | cons first before =>
            obtain ⟨rfl, rfl⟩ := List.cons.inj hlines
            refine Or.inr ⟨(b :: line) :: before, last, rfl, hlast, ?_⟩
            rw [← hall, List.flatMap_cons, List.flatMap_cons]
            rfl

/-- Bytes may be cut into lines in two parts, the first of which ends at a line feed. -/
theorem splitLines_append {bytes : List UInt8} (h : bytes = [] ∨ bytes.getLast? = some 10)
    (rest : List UInt8) : splitLines (bytes ++ rest) = splitLines bytes ++ splitLines rest := by
  induction bytes with
  | nil => rfl
  | cons b bytes ih =>
    have hlast : (b :: bytes).getLast? = some 10 := h.resolve_left (List.cons_ne_nil _ _)
    by_cases hb : b = 10
    · subst hb
      have hfeed (more : List UInt8) : splitLines (10 :: more) = [] :: splitLines more := if_pos rfl
      have hbytes : bytes = [] ∨ bytes.getLast? = some 10 := by
        cases bytes with
        | nil => exact Or.inl rfl
        | cons b bytes => exact Or.inr hlast
      rw [List.cons_append, hfeed, hfeed, ih hbytes]
      rfl
    · cases bytes with
      | nil => exact absurd (Option.some.inj hlast) hb
      | cons b' bytes =>
        obtain ⟨line, others, hlines⟩ := List.exists_cons_of_ne_nil
          (mt splitLines_eq_nil_iff.mp (List.cons_ne_nil b' bytes))
        have happend := ih (Or.inr hlast)
        rw [hlines, List.cons_append] at happend
        rw [splitLines_cons_of_ne hb hlines]
        exact splitLines_cons_of_ne hb happend

/-- The bytes of a line are those of a text. -/
def TextLine (line : List UInt8) : Prop := ∃ cs, Utf8.encode cs = line

instance (line : List UInt8) : Decidable (TextLine line) :=
  decidable_of_iff (Utf8.decode line ≠ none) <| by
    rw [Ne, Utf8.decode_eq_none_iff]
    exact Classical.not_forall_not

/-- There is nothing but blanks on a line. -/
def BlankLine (line : List UInt8) : Prop := ∃ cs, Blanks cs ∧ Utf8.encode cs = line

/-- There is a record on a line, between blanks. -/
structure RecordLine (line : List UInt8) (text : List Char) : Prop where
  nonempty : text ≠ []
  bare : Bare text
  between : ∃ front back, Blanks front ∧ Blanks back ∧ Utf8.encode (front ++ text ++ back) = line

variable {line : List UInt8} {text : List Char}

theorem BlankLine.textLine (h : BlankLine line) : TextLine line := by
  obtain ⟨cs, -, hcs⟩ := h
  exact ⟨cs, hcs⟩

theorem RecordLine.textLine (h : RecordLine line text) : TextLine line := by
  obtain ⟨front, back, -, -, hline⟩ := h.between
  exact ⟨_, hline⟩

theorem Line.ofBytes_of_not_textLine (h : ¬TextLine line) : Line.ofBytes line = .notText := by
  have hnone : Utf8.decode line = none := Utf8.decode_eq_none_iff.mpr (not_exists.mp h)
  rw [Line.ofBytes, hnone]

theorem Line.ofBytes_of_blankLine (h : BlankLine line) : Line.ofBytes line = .blank := by
  obtain ⟨cs, hblanks, rfl⟩ := h
  rw [Line.ofBytes, Utf8.decode_encode]
  simp only [trim_eq_nil_iff.mpr hblanks]

theorem Line.ofBytes_of_recordLine (h : RecordLine line text) : Line.ofBytes line = .record text := by
  obtain ⟨front, back, hfront, hback, rfl⟩ := h.between
  have htrim : trim (front ++ text ++ back) = text := by
    rw [trim_between hfront hback, trim_eq_self h.bare.1 h.bare.2]
  rw [Line.ofBytes, Utf8.decode_encode]
  simp only [htrim]
  cases text with
  | nil => exact absurd rfl h.nonempty
  | cons c rest => rfl

/-- Every line is of one of the three kinds. -/
theorem line_cases (line : List UInt8) :
    ¬TextLine line ∨ BlankLine line ∨ ∃ text, RecordLine line text := by
  by_cases htext : TextLine line
  · obtain ⟨cs, rfl⟩ := htext
    obtain ⟨hbare, front, back, hfront, hback, hcs⟩ := exists_trim cs
    by_cases hnil : trim cs = []
    · exact Or.inr (Or.inl ⟨cs, trim_eq_nil_iff.mp hnil, rfl⟩)
    · exact Or.inr (Or.inr ⟨trim cs, hnil, hbare, front, back, hfront, hback, congrArg _ hcs.symm⟩)
  · exact Or.inl htext

/-- Blanks around a line do not change what it holds. -/
theorem Line.ofBytes_between {front back : List Char} (hfront : Blanks front) (hback : Blanks back)
    (line : List UInt8) :
    Line.ofBytes (Utf8.encode front ++ line ++ Utf8.encode back) = Line.ofBytes line := by
  rw [Line.ofBytes, Line.ofBytes, Utf8.decode_between]
  cases Utf8.decode line with
  | none => rfl
  | some cs =>
    rw [Option.map_some]
    simp only [trim_between hfront hback]

namespace Reader

variable {α : Type} {decode : List Char → Except Json.DecodeError α}

/-! ### One call -/

/-- What a call answers and the reader after it: the lines up to the first one that is not blank are
used up, and those of them that are text are counted. -/
inductive Answers (decode : List Char → Except Json.DecodeError α) :
    Reader → Except ReadError (Option α) → Reader → Prop where
  | ended {blanks : List (List UInt8)} {number : Nat} (hblanks : ∀ line ∈ blanks, BlankLine line) :
      Answers decode ⟨blanks, number⟩ (.ok none) ⟨[], number + blanks.length⟩
  | notText {blanks after : List (List UInt8)} {line : List UInt8} {number : Nat}
      (hblanks : ∀ line ∈ blanks, BlankLine line) (hline : ¬TextLine line) :
      Answers decode ⟨blanks ++ line :: after, number⟩ (.error .notText)
        ⟨after, number + blanks.length⟩
  | refused {blanks after : List (List UInt8)} {line : List UInt8} {number : Nat}
      {text : List Char} {cause : Json.DecodeError} (hblanks : ∀ line ∈ blanks, BlankLine line)
      (hline : RecordLine line text) (hdecode : decode text = .error cause) :
      Answers decode ⟨blanks ++ line :: after, number⟩
        (.error (.badRecord (number + blanks.length + 1) cause))
        ⟨after, number + blanks.length + 1⟩
  | record {blanks after : List (List UInt8)} {line : List UInt8} {number : Nat}
      {text : List Char} {a : α} (hblanks : ∀ line ∈ blanks, BlankLine line)
      (hline : RecordLine line text) (hdecode : decode text = .ok a) :
      Answers decode ⟨blanks ++ line :: after, number⟩ (.ok (some a))
        ⟨after, number + blanks.length + 1⟩

variable {r r' : Reader} {answer : Except ReadError (Option α)}
  {lines blanks : List (List UInt8)} {line : List UInt8} {text : List Char} {number count : Nat}
  {cause : Json.DecodeError}

theorem nextFrom_of_blankLine (hline : BlankLine line) (number : Nat)
    (rest : List (List UInt8)) :
    nextFrom decode number (line :: rest) = nextFrom decode (number + 1) rest := by
  rw [nextFrom, Line.ofBytes_of_blankLine hline]

theorem nextFrom_blanks (hblanks : ∀ line ∈ blanks, BlankLine line) (number : Nat)
    (rest : List (List UInt8)) :
    nextFrom decode number (blanks ++ rest) = nextFrom decode (number + blanks.length) rest := by
  induction blanks generalizing number with
  | nil => rfl
  | cons line blanks ih =>
    obtain ⟨hline, hrest⟩ := List.forall_mem_cons.mp hblanks
    rw [List.cons_append, nextFrom_of_blankLine hline, ih hrest, List.length_cons, Nat.add_assoc,
      Nat.add_comm 1]

theorem Answers.next_eq (h : Answers decode r answer r') : r.next decode = (answer, r') := by
  cases h with
  | @ended blanks number hblanks =>
    have hnext : nextFrom decode number (blanks ++ []) = _ := nextFrom_blanks hblanks number []
    rwa [List.append_nil] at hnext
  | notText hblanks hline =>
    rw [next, nextFrom_blanks hblanks, nextFrom, Line.ofBytes_of_not_textLine hline]
  | refused hblanks hline hdecode =>
    rw [next, nextFrom_blanks hblanks, nextFrom, Line.ofBytes_of_recordLine hline]
    simp only [hdecode]
    rfl
  | record hblanks hline hdecode =>
    rw [next, nextFrom_blanks hblanks, nextFrom, Line.ofBytes_of_recordLine hline]
    simp only [hdecode]
    rfl

/-- Lines are blank up to the first one that is not. -/
theorem exists_blanks (lines : List (List UInt8)) :
    ∃ blanks rest, lines = blanks ++ rest ∧ (∀ line ∈ blanks, BlankLine line) ∧
      ∀ line ∈ rest.head?, ¬BlankLine line := by
  induction lines with
  | nil => exact ⟨[], [], rfl, List.forall_mem_nil _, nofun⟩
  | cons line lines ih =>
    by_cases hline : BlankLine line
    · obtain ⟨blanks, rest, rfl, hblanks, hrest⟩ := ih
      exact ⟨line :: blanks, rest, rfl, List.forall_mem_cons.mpr ⟨hline, hblanks⟩, hrest⟩
    · refine ⟨[], line :: lines, rfl, List.forall_mem_nil _, ?_⟩
      rintro _ ⟨⟩
      exact hline

theorem exists_answers (decode : List Char → Except Json.DecodeError α) (r : Reader) :
    ∃ answer r', Answers decode r answer r' := by
  obtain ⟨pending, number⟩ := r
  obtain ⟨blanks, rest, rfl, hblanks, hrest⟩ := exists_blanks pending
  cases rest with
  | nil =>
    rw [List.append_nil]
    exact ⟨_, _, .ended hblanks⟩
  | cons line after =>
    have hline : ¬BlankLine line := hrest line rfl
    rcases line_cases line with hnot | hblank | ⟨text, hrecord⟩
    · exact ⟨_, _, .notText hblanks hnot⟩
    · exact absurd hblank hline
    · cases hdecode : decode text with
      | error cause => exact ⟨_, _, .refused hblanks hrecord hdecode⟩
      | ok a => exact ⟨_, _, .record hblanks hrecord hdecode⟩

/-- **One call** answers the first line that is not blank. -/
theorem answers_next (decode : List Char → Except Json.DecodeError α) (r : Reader) :
    Answers decode r (r.next decode).1 (r.next decode).2 := by
  obtain ⟨answer, r', h⟩ := exists_answers decode r
  rw [h.next_eq]
  exact h

/-! ### Call after call -/

/-- The reader after some calls. -/
def afterCalls (decode : List Char → Except Json.DecodeError α) (r : Reader) : Nat → Reader
  | 0 => r
  | calls + 1 => ((afterCalls decode r calls).next decode).2

/-- A reader stands somewhere in the lines of a stream, and has counted those before that are
text. -/
def StandsIn (r : Reader) (lines : List (List UInt8)) : Prop :=
  ∃ done, lines = done ++ r.pending ∧ r.lineNumber = done.countP (TextLine ·)

theorem countP_blanks (hblanks : ∀ line ∈ blanks, BlankLine line) :
    blanks.countP (TextLine ·) = blanks.length :=
  List.countP_eq_length.mpr fun line hline => decide_eq_true (hblanks line hline).textLine

/-- A call goes on from where the reader stands. -/
theorem StandsIn.answers (h : r.StandsIn lines) (hanswers : Answers decode r answer r') :
    r'.StandsIn lines := by
  obtain ⟨done, rfl, hnumber⟩ := h
  have htext (blanks : List (List UInt8)) (hblanks : ∀ line ∈ blanks, BlankLine line)
      {line : List UInt8} (hline : TextLine line) :
      (done ++ (blanks ++ [line])).countP (TextLine ·) =
        done.countP (TextLine ·) + blanks.length + 1 := by
    rw [List.countP_append, List.countP_append, countP_blanks hblanks,
      List.countP_singleton, if_pos (decide_eq_true hline), Nat.add_assoc]
  cases hanswers with
  | @ended blanks number hblanks =>
    refine ⟨done ++ blanks, (List.append_nil _).symm, ?_⟩
    rw [List.countP_append, countP_blanks hblanks, ← hnumber]
  | @notText blanks after line number hblanks hline =>
    refine ⟨done ++ (blanks ++ [line]), by simp, ?_⟩
    rw [List.countP_append, List.countP_append, countP_blanks hblanks, ← hnumber,
      List.countP_singleton, if_neg (by simpa using hline)]
    rfl
  | @refused blanks after line number text cause hblanks hline =>
    exact ⟨done ++ (blanks ++ [line]), by simp, by rw [htext blanks hblanks hline.textLine, ← hnumber]⟩
  | @record blanks after line number text a hblanks hline =>
    exact ⟨done ++ (blanks ++ [line]), by simp, by rw [htext blanks hblanks hline.textLine, ← hnumber]⟩

theorem standsIn_afterCalls (decode : List Char → Except Json.DecodeError α) (bytes : List UInt8)
    (calls : Nat) : ((ofBytes bytes).afterCalls decode calls).StandsIn (splitLines bytes) := by
  induction calls with
  | zero => exact ⟨[], rfl, rfl⟩
  | succ calls ih => exact ih.answers (answers_next decode _)

/-- The number in a refusal is that of the line that was refused, counted from 1 among the lines
that are text, and the reader goes on behind this line. -/
theorem StandsIn.number_eq (h : r.StandsIn lines)
    (hanswers : Answers decode r (.error (.badRecord number cause)) r') :
    ∃ before line text, lines = before ++ line :: r'.pending ∧ RecordLine line text ∧
      decode text = .error cause ∧ number = before.countP (TextLine ·) + 1 := by
  obtain ⟨done, rfl, hnumber⟩ := h
  cases hanswers with
  | @refused blanks after line number text cause hblanks hline hdecode =>
    refine ⟨done ++ blanks, line, text, by simp, hline, hdecode, ?_⟩
    rw [List.countP_append, countP_blanks hblanks, ← hnumber]

/-! ### Reading everything -/

/-- Lines that can all be read, and their records. -/
inductive Yields (decode : List Char → Except Json.DecodeError α) :
    List (List UInt8) → List α → Prop where
  | nil : Yields decode [] []
  | blank {line : List UInt8} {lines : List (List UInt8)} {values : List α}
      (hline : BlankLine line) (hrest : Yields decode lines values) :
      Yields decode (line :: lines) values
  | record {line : List UInt8} {lines : List (List UInt8)} {text : List Char} {a : α}
      {values : List α} (hline : RecordLine line text) (hdecode : decode text = .ok a)
      (hrest : Yields decode lines values) : Yields decode (line :: lines) (a :: values)

/-- The fault of the first line that cannot be read, and how many lines are counted by then. -/
inductive Stops (decode : List Char → Except Json.DecodeError α) :
    List (List UInt8) → ReadError → Nat → Prop where
  | notText {before after : List (List UInt8)} {line : List UInt8} {values : List α}
      (hbefore : Yields decode before values) (hline : ¬TextLine line) :
      Stops decode (before ++ line :: after) .notText before.length
  | refused {before after : List (List UInt8)} {line : List UInt8} {values : List α}
      {text : List Char} {cause : Json.DecodeError} (hbefore : Yields decode before values)
      (hline : RecordLine line text) (hdecode : decode text = .error cause) :
      Stops decode (before ++ line :: after) (.badRecord (before.length + 1) cause)
        (before.length + 1)

variable {before : List (List UInt8)} {values more : List α} {e : ReadError}

theorem Yields.append {after : List (List UInt8)} (h : Yields decode before values)
    (hafter : Yields decode after more) : Yields decode (before ++ after) (values ++ more) := by
  induction h with
  | nil => exact hafter
  | blank hline _ ih => exact .blank hline ih
  | record hline hdecode _ ih => exact .record hline hdecode ih

/-- Every record comes from some text. -/
theorem Yields.exists_text (h : Yields decode before values) :
    ∀ a ∈ values, ∃ text, decode text = .ok a := by
  induction h with
  | nil => exact List.forall_mem_nil _
  | blank _ _ ih => exact ih
  | @record _ _ text _ _ _ hdecode _ ih => exact List.forall_mem_cons.mpr ⟨⟨text, hdecode⟩, ih⟩

/-- Lines are all read, or some line is the first that is not. -/
theorem yields_or_stops (decode : List Char → Except Json.DecodeError α)
    (lines : List (List UInt8)) :
    (∃ values, Yields decode lines values) ∨ ∃ e count, Stops decode lines e count := by
  -- what is wrong with earlier lines does not depend on later ones
  induction lines using List.reverseRecOn with
  | nil => exact Or.inl ⟨[], .nil⟩
  | append_singleton lines line ih =>
    rcases ih with ⟨values, hvalues⟩ | ⟨e, count, hstops⟩
    · rcases line_cases line with hnot | hblank | ⟨text, hrecord⟩
      · exact Or.inr ⟨_, _, .notText hvalues hnot⟩
      · exact Or.inl ⟨_, hvalues.append (.blank hblank .nil)⟩
      · cases hdecode : decode text with
        | error cause => exact Or.inr ⟨_, _, .refused hvalues hrecord hdecode⟩
        | ok a => exact Or.inl ⟨_, hvalues.append (.record hrecord hdecode .nil)⟩
    · refine Or.inr ⟨e, count, ?_⟩
      cases hstops with
      | notText hbefore hline =>
        rw [List.append_assoc]
        exact .notText hbefore hline
      | refused hbefore hline hdecode =>
        rw [List.append_assoc]
        exact .refused hbefore hline hdecode

theorem allFrom_of_blankLine (hline : BlankLine line) (number : Nat) (rest : List (List UInt8)) :
    allFrom decode number (line :: rest) = allFrom decode (number + 1) rest := by
  rw [allFrom, Line.ofBytes_of_blankLine hline]

/-- Lines that can be read count, and their records come before those of the lines after them. -/
theorem Yields.allFrom_append (h : Yields decode before values) (number : Nat)
    (after : List (List UInt8)) :
    allFrom decode number (before ++ after) =
      ((allFrom decode (number + before.length) after).1.map (values ++ ·),
        (allFrom decode (number + before.length) after).2) := by
  induction h generalizing number with
  | nil =>
    exact Prod.ext (congrFun Except.map_id _).symm rfl
  | @blank line lines values hline _ ih =>
    rw [List.cons_append, allFrom_of_blankLine hline, ih (number + 1), List.length_cons,
      Nat.add_assoc, Nat.add_comm 1]
  | @record line lines text a values hline hdecode _ ih =>
    rw [List.cons_append, allFrom, Line.ofBytes_of_recordLine hline]
    simp only [hdecode, ih (number + 1)]
    rw [List.length_cons, Nat.add_assoc, Nat.add_comm 1]
    cases (allFrom decode (number + (lines.length + 1)) after).1 <;> rfl

theorem Yields.all_eq (h : Yields decode lines values) :
    allFrom decode number lines = (.ok values, number + lines.length) := by
  have hall := h.allFrom_append number []
  rw [List.append_nil] at hall
  rw [hall]
  exact congrArg (fun more => (Except.ok more, number + lines.length)) (List.append_nil values)

theorem Stops.all_eq (h : Stops decode lines e count) : allFrom decode 0 lines = (.error e, count) := by
  cases h with
  | notText hbefore hline =>
    rw [hbefore.allFrom_append, allFrom, Line.ofBytes_of_not_textLine hline, Nat.zero_add]
    rfl
  | refused hbefore hline hdecode =>
    rw [hbefore.allFrom_append, allFrom, Line.ofBytes_of_recordLine hline, Nat.zero_add]
    simp only [hdecode]
    rfl

theorem all_eq_ok_iff {bytes : List UInt8} :
    (ofBytes bytes).all decode = (.ok values, count) ↔
      Yields decode (splitLines bytes) values ∧ count = (splitLines bytes).length := by
  have hall : (ofBytes bytes).all decode = allFrom decode 0 (splitLines bytes) := rfl
  rw [hall]
  rcases yields_or_stops decode (splitLines bytes) with ⟨found, hfound⟩ | ⟨e, n, hstops⟩
  · rw [hfound.all_eq, Prod.mk.injEq, Except.ok.injEq, Nat.zero_add]
    constructor
    · rintro ⟨rfl, rfl⟩
      exact ⟨hfound, rfl⟩
    · rintro ⟨hvalues, rfl⟩
      have heq : allFrom decode 0 (splitLines bytes) = _ := hvalues.all_eq
      rw [hfound.all_eq, Prod.mk.injEq, Except.ok.injEq] at heq
      exact ⟨heq.1, rfl⟩
  · rw [hstops.all_eq]
    refine iff_of_false (fun h => by cases h) fun h => ?_
    have heq : allFrom decode 0 (splitLines bytes) = _ := h.1.all_eq
    rw [hstops.all_eq] at heq
    cases heq

theorem all_eq_error_iff {bytes : List UInt8} :
    (ofBytes bytes).all decode = (.error e, count) ↔ Stops decode (splitLines bytes) e count := by
  refine ⟨fun h => ?_, Stops.all_eq⟩
  have hall : (ofBytes bytes).all decode = allFrom decode 0 (splitLines bytes) := rfl
  rw [hall] at h
  rcases yields_or_stops decode (splitLines bytes) with ⟨found, hfound⟩ | ⟨e', n, hstops⟩
  · rw [hfound.all_eq] at h
    cases h
  · rw [hstops.all_eq] at h
    cases h
    exact hstops

end Reader

end ArchFacts.Records
