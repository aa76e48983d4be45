import ArchFacts.Proofs.Fact.RoundTrip
import ArchFacts.Store.Persistence

/-!
# What is kept is read back

The contents of a store are one line for each fact, and reading them into an empty store gives the
same facts at the same positions (`Store.readRecords_contents`), if the facts are ones that a text
can hold.
-/

namespace ArchFacts

/-- Facts are read back from their records. -/
theorem Fact.read_writeBytes {facts : List Fact} (h : ∀ f ∈ facts, f.Writable) :
    Records.read Fact.read (Records.writeBytes Fact.write facts) = .ok facts := by
  rw [Records.read, Records.Reader.all_ofBytes_writeBytes (fun f hf => Fact.isRecord_write (h f hf))
    fun f hf => Fact.read_write (h f hf)]

namespace Store

theorem facts_pushAll (s : Store) (facts : List Fact) :
    (s.pushAll facts).facts = s.facts ++ facts := by
  induction facts generalizing s with
  | nil => exact (List.append_nil _).symm
  | cons f facts ih =>
    rw [pushAll, List.foldl_cons]
    exact (ih (s.push f)).trans (List.append_assoc s.facts [f] facts)

/-- **Keeping a store**: its contents are a line for each fact, none for the empty store, and give
all facts back, at the same positions, when they are read into an empty store. -/
theorem readRecords_contents {s : Store} (h : ∀ f ∈ s.facts, f.Writable) :
    (∃ lines : List (List Char), lines.length = s.count ∧
      (∀ line ∈ lines, line ≠ [] ∧ '\n' ∉ line) ∧
      s.contents = Text.Utf8.encode (lines.flatMap (· ++ ['\n']))) ∧
    ∃ read, empty.readRecords s.contents = .ok (read, ⟨0, s.count⟩) ∧ read.facts = s.facts := by
  refine ⟨⟨s.facts.map Fact.write, List.length_map _, fun line hline => ?_, ?_⟩,
    empty.pushAll s.facts, ?_, facts_pushAll empty s.facts⟩
  · obtain ⟨f, hf, rfl⟩ := List.mem_map.mp hline
    exact ⟨(Fact.isRecord_write (h f hf)).nonempty, (Fact.isRecord_write (h f hf)).oneLine⟩
  · rw [List.flatMap_map]
    rfl
  · have hcount : (empty.pushAll s.facts).count = s.count :=
      congrArg List.length (facts_pushAll empty s.facts)
    rw [readRecords, contents, Fact.read_writeBytes h]
    change Except.ok (empty.pushAll s.facts, (⟨0, (empty.pushAll s.facts).count⟩ : Span)) = _
    rw [hcount]

/-- A store with what is hard to write: quotes, control characters, line breaks, characters outside
ASCII, a negative number, and tables inside one another. -/
def awkward : Store :=
  empty.pushAll
    [{ kind := .symbol, name := "a \"b\" \\c\n\x01\u00e9", file := "src/\t\u2028.rs", line := 7
       props := [("empty", .object []), ("list\r\n", .array [.int (-3), .null, .string "\x1f"])]
       relations := [⟨.calls, "line\nbreak"⟩, ⟨⟨"\u3000"⟩, ""⟩] },
     Fact.of ⟨""⟩ ""]

theorem readRecords_contents_awkward :
    (∀ f ∈ awkward.facts, f.Writable) ∧
      ∃ read, empty.readRecords awkward.contents = .ok (read, ⟨0, 2⟩) ∧
        read.facts = awkward.facts := by
  have hwritable : ∀ f ∈ awkward.facts, f.Writable := by
    refine List.forall_mem_cons.mpr ⟨?_, List.forall_mem_singleton.mpr ?_⟩
    · refine ⟨⟨trivial, ⟨trivial, trivial, trivial, trivial⟩, trivial⟩, ⟨by decide, ?_⟩, by decide⟩
      exact ⟨⟨List.Pairwise.nil, trivial⟩, ⟨⟨by decide, by decide⟩, trivial, trivial, trivial⟩, trivial⟩
    · exact ⟨trivial, ⟨List.Pairwise.nil, trivial⟩, by decide⟩
  exact ⟨hwritable, (readRecords_contents hwritable).2⟩

end Store

end ArchFacts
