import ArchFacts.Proofs.Json.Values
import ArchFacts.Proofs.Records.Stream

/-!
# Records written in batches

A writer takes one record or several at a time. How the records are split does not matter: its text
is a line for each of them, in order, and it has counted them after every batch (`Wrote`, kept by
every call and so by every run). A reader of this text answers the records one by one and then the
end, and has counted as many lines (`next_afterCalls_writeBytes`).

JSON values are such records, whatever they are: their compact texts stand on a line of their own
and begin and end with a character that is not blank (`Value.isRecord_write`).
-/

namespace ArchFacts

namespace Records

variable {α : Type} {render : α → List Char}

/-! ### Writing -/

/-- A call of a writer, with one record or with several. -/
inductive Batch (α : Type) where
  | one (record : α)
  | several (records : List α)

/-- The records of a call. -/
def Batch.records : Batch α → List α
  | .one record => [record]
  | .several records => records

namespace Writer

/-- Writes the records of a call. -/
def call (render : α → List Char) (w : Writer) : Batch α → Writer
  | .one record => w.write render record
  | .several records => w.writeAll render records

/-- Makes calls, one after the other. -/
def run (render : α → List Char) (w : Writer) (batches : List (Batch α)) : Writer :=
  batches.foldl (call render) w

/-- A writer has written some records since. -/
structure Wrote (render : α → List Char) (before : Writer) (records : List α) (after : Writer) :
    Prop where
  text : after.text = before.text ++ Records.write render records
  records : after.records = before.records + records.length

variable {w before between after : Writer} {records more : List α}

namespace Wrote

theorem refl (render : α → List Char) (w : Writer) : Wrote render w [] w :=
  ⟨(List.append_nil _).symm, rfl⟩

theorem trans (h : Wrote render before records between) (h' : Wrote render between more after) :
    Wrote render before (records ++ more) after where
  text := by rw [h'.text, h.text, List.append_assoc, Records.write, Records.write, Records.write,
    List.flatMap_append]
  records := by rw [h'.records, h.records, List.length_append, Nat.add_assoc]

theorem one (render : α → List Char) (w : Writer) (record : α) :
    Wrote render w [record] (w.write render record) where
  text := by rw [Records.write, List.flatMap_singleton]; rfl
  records := rfl

end Wrote

theorem wrote_writeAll (render : α → List Char) (w : Writer) (records : List α) :
    Wrote render w records (w.writeAll render records) := by
  induction records generalizing w with
  | nil => exact .refl render w
  | cons record records ih => exact (Wrote.one render w record).trans (ih (w.write render record))

/-- **One call** writes its records. -/
theorem wrote_call (render : α → List Char) (w : Writer) (batch : Batch α) :
    Wrote render w batch.records (w.call render batch) := by
  cases batch with
  | one record => exact .one render w record
  | several records => exact wrote_writeAll render w records

/-- **A run of calls** writes the records of all of them. -/
theorem wrote_run (render : α → List Char) (w : Writer) (batches : List (Batch α)) :
    Wrote render w (batches.flatMap Batch.records) (w.run render batches) := by
  induction batches generalizing w with
  | nil => exact .refl render w
  | cons batch batches ih => exact (wrote_call render w batch).trans (ih (w.call render batch))

end Writer

/-! ### Reading again, call after call -/

namespace Reader

variable {decode : List Char → Except Json.DecodeError α} {records : List α}

theorem next_line {record : α} (h : IsRecord (render record))
    (hdecode : decode (render record) = .ok record) (pending : List (List UInt8)) (number : Nat) :
    Reader.next decode ⟨Text.Utf8.encode (render record) :: pending, number⟩ =
      (.ok (some record), ⟨pending, number + 1⟩) := by
  rw [next, nextFrom, Line.ofBytes_encode h]
  simp only [hdecode]
  rfl

/-- The lines of records are used up one a call, and counted. -/
theorem afterCalls_lines (h : ∀ r ∈ records, IsRecord (render r))
    (hdecode : ∀ r ∈ records, decode (render r) = .ok r) (calls : Nat) :
    Reader.afterCalls decode ⟨records.map fun r => Text.Utf8.encode (render r), 0⟩ calls =
      ⟨(records.drop calls).map fun r => Text.Utf8.encode (render r), min calls records.length⟩ := by
  induction calls with
  | zero => rw [Nat.zero_min]; rfl
  | succ calls ih =>
    rw [afterCalls, ih]
    rcases Nat.lt_or_ge calls records.length with hlt | hge
    · have hmem : records[calls] ∈ records := List.getElem_mem hlt
      rw [List.drop_eq_getElem_cons hlt, List.map_cons, next_line (h _ hmem) (hdecode _ hmem),
        Nat.min_eq_left hlt.le, Nat.min_eq_left hlt]
    · rw [List.drop_eq_nil_of_le hge, List.drop_eq_nil_of_le (Nat.le_succ_of_le hge),
        Nat.min_eq_right hge, Nat.min_eq_right (Nat.le_succ_of_le hge)]
      rfl

/-- Each call answers the next record that was written, and the end when there is none left. -/
theorem next_afterCalls_writeBytes (h : ∀ r ∈ records, IsRecord (render r))
    (hdecode : ∀ r ∈ records, decode (render r) = .ok r) (calls : Nat) :
    let r := (ofBytes (writeBytes render records)).afterCalls decode calls
    (r.next decode).1 = .ok records[calls]? ∧ r.lineNumber = min calls records.length := by
  have hlines := splitLines_writeBytes fun r hr => (h r hr).oneLine
  dsimp only
  rw [ofBytes, hlines, afterCalls_lines h hdecode calls]
  refine ⟨?_, rfl⟩
  rcases Nat.lt_or_ge calls records.length with hlt | hge
  · have hmem : records[calls] ∈ records := List.getElem_mem hlt
    rw [List.drop_eq_getElem_cons hlt, List.map_cons, next_line (h _ hmem) (hdecode _ hmem),
      List.getElem?_eq_getElem hlt]
  · rw [List.drop_eq_nil_of_le hge, List.getElem?_eq_none hge]
    rfl

end Reader

end Records

/-! ### Values as records -/

namespace Json

open Records

/-- The value that a record holds. -/
def Value.read (text : List Char) : Except DecodeError Value := Node.lift (parse text)

/-- A value that a text can hold and that is read again from it. -/
structure Value.Writable (v : Value) : Prop where
  whole : v.Whole
  proper : v.Proper
  depth : v.depth ≤ deepest

variable {v : Value}

theorem isBlank_of_isDigit {c : Char} (h : c.isDigit = true) : Text.isBlank c = false := by
  obtain ⟨hlow, hhigh⟩ := Char.isDigit_iff_toNat.mp h
  have hzero : '0'.toNat = 48 := rfl
  have hnine : '9'.toNat = 57 := rfl
  simp [Text.isBlank, Text.blankRanges]
  omega

theorem isBlank_of_mem_intText {n : Int} {c : Char} (h : c ∈ intText n) : Text.isBlank c = false := by
  have hdigits (h : c ∈ Nat.toDigits 10 n.natAbs) : Text.isBlank c = false :=
    isBlank_of_isDigit (Nat.isDigit_of_mem_toDigits (by decide) (by decide) h)
  unfold intText at h
  split at h
  · rcases List.mem_cons.mp h with rfl | h
    · rfl
    · exact hdigits h
  · exact hdigits h

theorem intText_ne_nil (n : Int) : intText n ≠ [] := by
  obtain ⟨d, -, rest, hdigits⟩ := toDigits_eq_cons n.natAbs
  unfold intText
  split
  · exact List.cons_ne_nil _ _
  · rw [hdigits]
    exact List.cons_ne_nil _ _

/-- The compact text of a value stands on a line of its own. -/
theorem Value.isRecord_write (h : v.Whole) : IsRecord v.write := by
  have honeLine := v.lineFeed_notMem_write h
  cases v with
  | null => exact ⟨by decide, honeLine, by decide⟩
  | bool b => cases b <;> exact ⟨by decide, honeLine, by decide⟩
  | int n =>
    refine ⟨intText_ne_nil n, honeLine, Text.trim_eq_self (fun c hc => ?_) fun c hc => ?_⟩
    · exact isBlank_of_mem_intText (List.mem_of_mem_head? hc)
    · exact isBlank_of_mem_intText (List.mem_of_getLast? hc)
  | float x => exact h.elim
  | string s => exact ⟨List.cons_ne_nil _ _, honeLine, Text.trim_enclosed rfl rfl _⟩
  | array items => exact ⟨List.cons_ne_nil _ _, honeLine, Text.trim_enclosed rfl rfl _⟩
  | object fields => exact ⟨List.cons_ne_nil _ _, honeLine, Text.trim_enclosed rfl rfl _⟩

theorem Value.read_write (h : v.Writable) : Value.read v.write = .ok v := by
  rw [Value.read, parse_write h.whole h.proper h.depth]
  rfl

/-- **Values are written and read again**, however they are split into batches: the text is a line
for each value, all values have been counted after every batch, and a reader of the text gives the
values in order, one by one or all at once, and has counted as many lines in the end. -/
theorem run_batches_read (batches : List (Batch Value))
    (h : ∀ batch ∈ batches, ∀ v ∈ batch.records, v.Writable) :
    let values := batches.flatMap Batch.records
    let text := (Writer.empty.run Value.write batches).text
    let reader := Reader.ofBytes (Text.Utf8.encode text)
    (∃ lines : List (List Char), lines.length = values.length ∧ (∀ line ∈ lines, '\n' ∉ line) ∧
      text = lines.flatMap (· ++ ['\n'])) ∧
    (∀ count, (Writer.empty.run Value.write (batches.take count)).records =
      ((batches.take count).flatMap Batch.records).length) ∧
    reader.all Value.read = (.ok values, values.length) ∧
    ∀ calls, let r := reader.afterCalls Value.read calls
      (r.next Value.read).1 = .ok values[calls]? ∧ r.lineNumber = min calls values.length := by
  have hvalues : ∀ v ∈ batches.flatMap Batch.records, v.Writable := by
    intro v hv
    obtain ⟨batch, hbatch, hv⟩ := List.mem_flatMap.mp hv
    exact h batch hbatch v hv
  have htext : (Writer.empty.run Value.write batches).text =
      Records.write Value.write (batches.flatMap Batch.records) :=
    (Writer.wrote_run Value.write .empty batches).text
  have hrecord : ∀ v ∈ batches.flatMap Batch.records, IsRecord v.write := fun v hv =>
    Value.isRecord_write (hvalues v hv).whole
  have hread : ∀ v ∈ batches.flatMap Batch.records, Value.read v.write = .ok v := fun v hv =>
    Value.read_write (hvalues v hv)
  dsimp only
  rw [htext]
  refine ⟨⟨(batches.flatMap Batch.records).map Value.write, List.length_map _, ?_, ?_⟩,
    fun count => ?_, ?_, ?_⟩
  · intro line hline
    obtain ⟨v, hv, rfl⟩ := List.mem_map.mp hline
    exact (hrecord v hv).oneLine
  · rw [List.flatMap_map]
    rfl
  · exact (Writer.wrote_run Value.write .empty _).records.trans (Nat.zero_add _)
  · exact Reader.all_ofBytes_writeBytes hrecord hread
  · exact Reader.next_afterCalls_writeBytes hrecord hread

/-- The least and the greatest integer, texts that look blank or have line breaks in them, and calls
with one value, with several and with none. -/
def assortedBatches : List (Batch Value) :=
  [.one (.int (-9223372036854775808)), .several [],
   .several [.int 18446744073709551615, .object [("", .array []), ("a\n", .string "\r\n")]],
   .one (.string " \u2028")]

theorem run_batches_read_assorted :
    (∀ batch ∈ assortedBatches, ∀ v ∈ batch.records, v.Writable) ∧
      (Reader.ofBytes (Text.Utf8.encode
        (Writer.empty.run Value.write assortedBatches).text)).all Value.read =
          (.ok [.int (-9223372036854775808), .int 18446744073709551615,
            .object [("", .array []), ("a\n", .string "\r\n")], .string " \u2028"], 4) := by
  have hwritable : ∀ batch ∈ assortedBatches, ∀ v ∈ batch.records, v.Writable := by
    refine List.forall_mem_cons.mpr ⟨List.forall_mem_singleton.mpr ?_, List.forall_mem_cons.mpr
      ⟨List.forall_mem_nil _, List.forall_mem_cons.mpr ⟨List.forall_mem_cons.mpr
        ⟨?_, List.forall_mem_singleton.mpr ?_⟩,
        List.forall_mem_singleton.mpr (List.forall_mem_singleton.mpr ?_)⟩⟩⟩
    · exact ⟨trivial, ⟨by decide, by decide⟩, by decide⟩
    · exact ⟨trivial, ⟨by decide, by decide⟩, by decide⟩
    · exact ⟨⟨trivial, trivial, trivial⟩, ⟨by decide, trivial, trivial, trivial⟩, by decide⟩
    · exact ⟨trivial, trivial, by decide⟩
  exact ⟨hwritable, (run_batches_read assortedBatches hwritable).2.2.1⟩

end Json

end ArchFacts
