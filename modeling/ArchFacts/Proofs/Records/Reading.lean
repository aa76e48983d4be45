import ArchFacts.Proofs.Records.Stream

/-!
# Reading streams faithfully

What a reader answers to call after call, and what it gives when everything is read at once, depends
on the lines of the stream and nothing else (`Reader.Faithful`, `Reader.faithful`). Two consequences
are about whole streams. A stream may be cut behind any line feed, and what is read from its parts is
what is read from all of it, with later line numbers in the second part (`Reader.all_append`). And
blanks around records, or on lines of their own, change nothing but line numbers (`Spaced`).
-/

namespace ArchFacts.Records

open Text

/-! ### Streams one after the other -/

/-- The error, with some lines more before it. -/
def ReadError.later (lines : Nat) : ReadError → ReadError
  | .notText => .notText
  | .badRecord number cause => .badRecord (lines + number) cause

namespace Reader

variable {α : Type} {decode : List Char → Except Json.DecodeError α}
  {before lines lines' : List (List UInt8)} {values : List α} {count : Nat} {e : ReadError}

theorem Stops.later (hbefore : Yields decode before values) (h : Stops decode lines e count) :
    Stops decode (before ++ lines) (e.later before.length) (before.length + count) := by
  cases h with
  | @notText good after line more hgood hline =>
    rw [← List.append_assoc, ← List.length_append]
    exact .notText (hbefore.append hgood) hline
  | @refused good after line more text cause hgood hline hdecode =>
    rw [ReadError.later, ← Nat.add_assoc, ← List.append_assoc, ← List.length_append]
    exact .refused (hbefore.append hgood) hline hdecode

/-- **A stream in two parts**: if all of the first part is read and it ends at a line feed, then its
records come first and its lines are counted before those of the second part. -/
theorem all_append {bytes : List UInt8} (hend : bytes = [] ∨ bytes.getLast? = some 10)
    (h : (ofBytes bytes).all decode = (.ok values, count)) (rest : List UInt8) :
    (ofBytes (bytes ++ rest)).all decode =
      ((((ofBytes rest).all decode).1.map (values ++ ·)).mapError (·.later count),
        count + ((ofBytes rest).all decode).2) := by
  obtain ⟨hyields, rfl⟩ := all_eq_ok_iff.mp h
  have hsplit := splitLines_append hend rest
  rcases hrest : (ofBytes rest).all decode with ⟨e | more, n⟩
  · have hstops := (all_eq_error_iff.mp hrest).later hyields
    rw [← hsplit] at hstops
    exact all_eq_error_iff.mpr hstops
  · obtain ⟨hmore, rfl⟩ := all_eq_ok_iff.mp hrest
    refine all_eq_ok_iff.mpr ⟨?_, ?_⟩
    · rw [hsplit]
      exact hyields.append hmore
    · rw [hsplit, List.length_append]

end Reader

/-! ### Blanks between and around records -/

/-- Lines with blank lines between them, and with blanks at the ends of lines. -/
inductive Spaced : List (List UInt8) → List (List UInt8) → Prop where
  | nil : Spaced [] []
  | blank {line : List UInt8} {lines lines' : List (List UInt8)} (hline : BlankLine line)
      (hrest : Spaced lines lines') : Spaced lines (line :: lines')
  | around {front back : List Char} {lines lines' : List (List UInt8)} (hfront : Blanks front)
      (hback : Blanks back) (line : List UInt8) (hrest : Spaced lines lines') :
      Spaced (line :: lines) ((Utf8.encode front ++ line ++ Utf8.encode back) :: lines')

/-- What is wrong, wherever it is: nothing more is known of a line that is not text. -/
def ReadError.cause? : ReadError → Option Json.DecodeError
  | .notText => none
  | .badRecord _ cause => some cause

namespace Spaced

variable {α : Type} {lines lines' : List (List UInt8)}

/-- A call answers the same, up to the number of the line, and the lines that it leaves are still
the same ones with more space. -/
theorem nextFrom (h : Spaced lines lines') (decode : List Char → Except Json.DecodeError α)
    (number number' : Nat) :
    (Reader.nextFrom decode number' lines').1.mapError ReadError.cause? =
        (Reader.nextFrom decode number lines).1.mapError ReadError.cause? ∧
      Spaced (Reader.nextFrom decode number lines).2.pending
        (Reader.nextFrom decode number' lines').2.pending := by
  induction h generalizing number number' with
  | nil => exact ⟨rfl, .nil⟩
  | blank hline _ ih =>
    rw [Reader.nextFrom_of_blankLine hline]
    exact ih number (number' + 1)
  | around hfront hback line hrest ih =>
    rw [Reader.nextFrom, Reader.nextFrom, Line.ofBytes_between hfront hback]
    cases Line.ofBytes line with
    | notText => exact ⟨rfl, hrest⟩
    | blank => exact ih (number + 1) (number' + 1)
    | record text =>
      refine ⟨?_, hrest⟩
      dsimp only
      cases decode text <;> rfl

theorem mapError_map {ε ε' β : Type} (f : ε → ε') (g : α → β) (result : Except ε α) :
    (result.map g).mapError f = (result.mapError f).map g := by
  cases result <;> rfl

theorem allFrom (h : Spaced lines lines') (decode : List Char → Except Json.DecodeError α)
    (number number' : Nat) :
    (Reader.allFrom decode number' lines').1.mapError ReadError.cause? =
      (Reader.allFrom decode number lines).1.mapError ReadError.cause? := by
  induction h generalizing number number' with
  | nil => rfl
  | blank hline _ ih =>
    rw [Reader.allFrom_of_blankLine hline]
    exact ih number (number' + 1)
  | around hfront hback line hrest ih =>
    rw [Reader.allFrom, Reader.allFrom, Line.ofBytes_between hfront hback]
    cases Line.ofBytes line with
    | notText => rfl
    | blank => exact ih (number + 1) (number' + 1)
    | record text =>
      dsimp only
      cases decode text with
      | error cause => rfl
      | ok a =>
        dsimp only
        rw [mapError_map, mapError_map, ih (number + 1) (number' + 1)]

/-- Readers of two such streams go on side by side. -/
theorem afterCalls {bytes bytes' : List UInt8} (h : Spaced (splitLines bytes) (splitLines bytes'))
    (decode : List Char → Except Json.DecodeError α) (calls : Nat) :
    Spaced ((Reader.ofBytes bytes).afterCalls decode calls).pending
      ((Reader.ofBytes bytes').afterCalls decode calls).pending := by
  induction calls with
  | zero => exact h
  | succ calls ih => exact (ih.nextFrom decode _ _).2

end Spaced

/-! ### The reader -/

namespace Reader

variable {α : Type}

/-- What can be relied on when a stream is read. -/
structure Faithful (decode : List Char → Except Json.DecodeError α) (bytes : List UInt8) :
    Prop where
  /-- The lines of a stream are the pieces that end after its line feeds. -/
  lines : LinesOf bytes (splitLines bytes)
  /-- After any calls, whatever they answered, a reader stands between two lines. The next call goes
  on from there to the first line that is not blank, and answers this line. -/
  call : ∀ calls, let r := (ofBytes bytes).afterCalls decode calls
    r.StandsIn (splitLines bytes) ∧ Answers decode r (r.next decode).1 (r.next decode).2
  /-- A refusal carries the number of its line: the lines before it are counted, the blank ones as
  well, but for those that are not text. -/
  number : ∀ calls number cause, let r := (ofBytes bytes).afterCalls decode calls
    (r.next decode).1 = .error (.badRecord number cause) →
    ∃ before line text, splitLines bytes = before ++ line :: (r.next decode).2.pending ∧
      RecordLine line text ∧ decode text = .error cause ∧
      number = before.countP (TextLine ·) + 1 ∧
      ((∀ line ∈ before, TextLine line) → number = before.length + 1)
  /-- All records are given, in order, and the number of lines, exactly if no line has a fault. -/
  all_ok : ∀ values count, (ofBytes bytes).all decode = (.ok values, count) ↔
    Yields decode (splitLines bytes) values ∧ count = (splitLines bytes).length
  /-- Otherwise the fault of the first line that has one is given. -/
  all_error : ∀ e count, (ofBytes bytes).all decode = (.error e, count) ↔
    Stops decode (splitLines bytes) e count
  /-- A stream that is read to its end and ends at a line feed may have any other behind it. -/
  append : ∀ values count rest, (bytes = [] ∨ bytes.getLast? = some 10) →
    (ofBytes bytes).all decode = (.ok values, count) →
    (ofBytes (bytes ++ rest)).all decode =
      ((((ofBytes rest).all decode).1.map (values ++ ·)).mapError (·.later count),
        count + ((ofBytes rest).all decode).2)
  /-- More blanks change nothing but the numbers of lines, be it call after call or at once. -/
  spaced : ∀ bytes', Spaced (splitLines bytes) (splitLines bytes') →
    (∀ calls, (((ofBytes bytes').afterCalls decode calls).next decode).1.mapError ReadError.cause? =
      (((ofBytes bytes).afterCalls decode calls).next decode).1.mapError ReadError.cause?) ∧
    ((ofBytes bytes').all decode).1.mapError ReadError.cause? =
      ((ofBytes bytes).all decode).1.mapError ReadError.cause?

/-- **Reading is faithful**, for every decoder and every stream of bytes. -/
theorem faithful (decode : List Char → Except Json.DecodeError α) (bytes : List UInt8) :
    Faithful decode bytes where
  lines := linesOf_splitLines bytes
  call calls := ⟨standsIn_afterCalls decode bytes calls, answers_next decode _⟩
  number calls number cause := by
    intro r hnext
    have hanswers := answers_next decode r
    rw [hnext] at hanswers
    obtain ⟨before, line, text, hlines, hline, hdecode, hnumber⟩ :=
      (standsIn_afterCalls decode bytes calls).number_eq hanswers
    refine ⟨before, line, text, hlines, hline, hdecode, hnumber, fun htext => ?_⟩
    rw [hnumber, List.countP_eq_length.mpr fun line hline => decide_eq_true (htext line hline)]
  all_ok _ _ := all_eq_ok_iff
  all_error _ _ := all_eq_error_iff
  append _ _ rest hend hall := all_append hend hall rest
  spaced _ h :=
    ⟨fun calls => ((h.afterCalls decode calls).nextFrom decode _ _).1, h.allFrom decode 0 0⟩

end Reader

end ArchFacts.Records
