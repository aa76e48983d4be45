import ArchFacts.Proofs.Text.Trimming
import ArchFacts.Proofs.Text.Utf8
import ArchFacts.Records.Reader
import ArchFacts.Records.Writer

/-!
# Records on their lines

A text that can be a record stands on one line and loses nothing when its ends are trimmed
(`IsRecord`). Such records are found again one a line, so what was written with a renderer is read
with any decoder that undoes it (`all_ofBytes_writeBytes`).
-/

namespace ArchFacts.Records

open Text

/-- A text that is a whole line of its own and not blank at either end. -/
structure IsRecord (text : List Char) : Prop where
  nonempty : text ≠ []
  oneLine : '\n' ∉ text
  trimmed : trim text = text

theorem Line.ofBytes_encode {text : List Char} (h : IsRecord text) :
    Line.ofBytes (Utf8.encode text) = .record text := by
  rw [Line.ofBytes, Utf8.decode_encode]
  simp only [h.trimmed]
  cases text with
  | nil => exact absurd rfl h.nonempty
  | cons c rest => rfl

/-! ### Lines -/

theorem splitLines_cons {line : List UInt8} (h : 10 ∉ line) (rest : List UInt8) :
    splitLines (line ++ 10 :: rest) = line :: splitLines rest := by
  induction line with
  | nil => exact if_pos rfl
  | cons b line ih =>
    obtain ⟨hb, hline⟩ := not_or.mp (mt List.mem_cons.mpr h)
    rw [List.cons_append, splitLines, if_neg (Ne.symm hb), ih hline]

variable {α : Type} {render : α → List Char}

theorem writeBytes_cons (record : α) (records : List α) :
    writeBytes render (record :: records) =
      Utf8.encode (render record) ++ 10 :: writeBytes render records := by
  unfold writeBytes write
  rw [List.flatMap_cons, Utf8.encode_append, Utf8.encode_append, List.append_assoc]
  rfl

/-- What was written is one line for each record. -/
theorem splitLines_writeBytes {records : List α} (h : ∀ r ∈ records, '\n' ∉ render r) :
    splitLines (writeBytes render records) = records.map fun r => Utf8.encode (render r) := by
  induction records with
  | nil => rfl
  | cons r records ih =>
    have hline := Utf8.lineFeed_notMem_encode (h r List.mem_cons_self)
    rw [writeBytes_cons, splitLines_cons hline, ih fun r hr => h r (List.mem_cons_of_mem _ hr)]
    rfl

/-! ### Reading back -/

variable {decode : List Char → Except Json.DecodeError α}

theorem Reader.allFrom_lines {records : List α} (lineNumber : Nat)
    (h : ∀ r ∈ records, IsRecord (render r)) (hdecode : ∀ r ∈ records, decode (render r) = .ok r) :
    allFrom decode lineNumber (records.map fun r => Utf8.encode (render r)) =
      (.ok records, lineNumber + records.length) := by
  induction records generalizing lineNumber with
  | nil => rfl
  | cons r records ih =>
    have hrest := ih (lineNumber + 1) (fun r hr => h r (List.mem_cons_of_mem _ hr))
      fun r hr => hdecode r (List.mem_cons_of_mem _ hr)
    rw [List.map_cons, allFrom, Line.ofBytes_encode (h r List.mem_cons_self)]
    simp only [hdecode r List.mem_cons_self, hrest]
    rw [List.length_cons, Nat.add_assoc, Nat.add_comm 1]
    rfl

/-- **Reading back records**: all of them come back, in order, and as many lines are counted. -/
theorem Reader.all_ofBytes_writeBytes {records : List α} (h : ∀ r ∈ records, IsRecord (render r))
    (hdecode : ∀ r ∈ records, decode (render r) = .ok r) :
    (Reader.ofBytes (writeBytes render records)).all decode = (.ok records, records.length) := by
  rw [Reader.ofBytes, Reader.all, splitLines_writeBytes fun r hr => (h r hr).oneLine]
  rw [allFrom_lines 0 h hdecode, Nat.zero_add]

end ArchFacts.Records
