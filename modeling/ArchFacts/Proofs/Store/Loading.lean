import ArchFacts.Proofs.Records.Stream
import ArchFacts.Proofs.Store.GraphSnapshot

/-!
# Loading is all or nothing

Facts are loaded from a stream or from a file. What a source holds is told by its lines alone: each
of them is blank or is decoded as a fact (`Source.Gives`), or there is a first one that is not, or
the file cannot be read (`Source.Fails`). In the first case the facts are added after those of the
store, in all others the store stays as it is, whatever was decoded before the fault. So after any
run of loads the facts of the successful ones stand in the store, and nothing else has come in
(`load_all_or_nothing`).
-/

namespace ArchFacts

open Records Records.Reader

/-- Where facts are loaded from. -/
inductive Source where
  | stream (bytes : List UInt8)
  | file (tree : Directory.Tree) (path : String)

namespace Source

/-- Loading as a change to a store. -/
def change : Source → Store.Change
  | .stream bytes => .readRecords bytes
  | .file tree path => .load tree path

/-- Every line of a source is blank or is decoded as a fact, and these are the facts. -/
inductive Gives : Source → List Fact → Prop where
  | stream {bytes : List UInt8} {facts : List Fact}
      (hlines : Yields Fact.read (splitLines bytes) facts) : Gives (.stream bytes) facts
  | file {tree : Directory.Tree} {path : String} {bytes : List UInt8} {facts : List Fact}
      (hbytes : tree.readBytes path = .ok bytes) (hlines : Yields Fact.read (splitLines bytes) facts) :
      Gives (.file tree path) facts

/-- Why nothing is loaded from a source: the first line that is not blank and not decoded as a fact,
or is no text, stops the reading, or the file is not there to be read. -/
inductive Fails : Source → Failure → Prop where
  | stream {bytes : List UInt8} {error : ReadError} {count : Nat}
      (hlines : Stops Fact.read (splitLines bytes) error count) :
      Fails (.stream bytes) (.stream error)
  | access {tree : Directory.Tree} {path : String} {fault : Directory.Fault}
      (hbytes : tree.readBytes path = .error fault) : Fails (.file tree path) (.access path fault)
  | notText {tree : Directory.Tree} {path : String} {bytes : List UInt8} {count : Nat}
      (hbytes : tree.readBytes path = .ok bytes)
      (hlines : Stops Fact.read (splitLines bytes) .notText count) :
      Fails (.file tree path) (.access path .notText)
  | badRecord {tree : Directory.Tree} {path : String} {bytes : List UInt8} {number count : Nat}
      {cause : Json.DecodeError} (hbytes : tree.readBytes path = .ok bytes)
      (hlines : Stops Fact.read (splitLines bytes) (.badRecord number cause) count) :
      Fails (.file tree path) (.badRecord path number cause)

/-- The facts of those of some sources that do not fail, in order. -/
inductive AllGive : List Source → List Fact → Prop where
  | nil : AllGive [] []
  | loaded {source : Source} {sources : List Source} {facts more : List Fact}
      (hsource : source.Gives facts) (hrest : AllGive sources more) :
      AllGive (source :: sources) (facts ++ more)
  | failed {source : Source} {sources : List Source} {failure : Failure} {more : List Fact}
      (hsource : source.Fails failure) (hrest : AllGive sources more) :
      AllGive (source :: sources) more

end Source

namespace Store

/-- Adds the facts of a source and tells their positions. -/
def loadFrom (s : Store) : Source → Except Failure (Store × Span)
  | .stream bytes => s.readRecords bytes
  | .file tree path => s.load tree path

variable {s : Store} {source : Source} {sources : List Source} {facts more : List Fact}
  {failure : Failure}

theorem read_of_yields {bytes : List UInt8} (h : Yields Fact.read (splitLines bytes) facts) :
    Records.read Fact.read bytes = .ok facts :=
  congrArg Prod.fst (Reader.all_eq_ok_iff.mpr ⟨h, rfl⟩)

theorem read_of_stops {bytes : List UInt8} {error : ReadError} {count : Nat}
    (h : Stops Fact.read (splitLines bytes) error count) :
    Records.read Fact.read bytes = .error error :=
  congrArg Prod.fst (Reader.all_eq_error_iff.mpr h)

/-! ### One load -/

theorem loadFrom_of_gives (s : Store) (h : source.Gives facts) :
    s.loadFrom source = .ok (s.add facts) := by
  cases h with
  | stream hlines => rw [loadFrom, readRecords, read_of_yields hlines]
  | file hbytes hlines =>
    rw [loadFrom, load, factsIn, hbytes]
    simp only [read_of_yields hlines]
    rfl

theorem loadFrom_of_fails (s : Store) (h : source.Fails failure) :
    s.loadFrom source = .error failure := by
  cases h with
  | stream hlines => rw [loadFrom, readRecords, read_of_stops hlines]
  | access hbytes =>
    rw [loadFrom, load, factsIn, hbytes]
    rfl
  | notText hbytes hlines | badRecord hbytes hlines =>
    rw [loadFrom, load, factsIn, hbytes]
    simp only [read_of_stops hlines]
    rfl

/-- A source gives facts or fails. -/
theorem gives_or_fails (source : Source) :
    (∃ facts, source.Gives facts) ∨ ∃ failure, source.Fails failure := by
  cases source with
  | stream bytes =>
    rcases Reader.yields_or_stops Fact.read (splitLines bytes) with ⟨facts, h⟩ | ⟨error, count, h⟩
    · exact Or.inl ⟨facts, .stream h⟩
    · exact Or.inr ⟨_, .stream h⟩
  | file tree path =>
    cases hbytes : tree.readBytes path with
    | error fault => exact Or.inr ⟨_, .access hbytes⟩
    | ok bytes =>
      rcases Reader.yields_or_stops Fact.read (splitLines bytes) with ⟨facts, h⟩ | ⟨error, count, h⟩
      · exact Or.inl ⟨facts, .file hbytes h⟩
      · cases error with
        | notText => exact Or.inr ⟨_, .notText hbytes h⟩
        | badRecord number cause => exact Or.inr ⟨_, .badRecord hbytes h⟩

/-- The change is what loading makes of the store. -/
theorem apply_change (s : Store) (source : Source) :
    s.apply source.change = s.readOr (s.loadFrom source) := by
  cases source <;> rfl

/-! ### A run of loads -/

theorem pushAll_append (s : Store) (facts more : List Fact) :
    s.pushAll (facts ++ more) = (s.pushAll facts).pushAll more :=
  List.foldl_append

theorem exists_run_loads (s : Store) (sources : List Source) :
    ∃ facts, Source.AllGive sources facts ∧ s.run (sources.map Source.change) = s.pushAll facts := by
  induction sources generalizing s with
  | nil => exact ⟨[], .nil, rfl⟩
  | cons source sources ih =>
    have hrun : s.run ((source :: sources).map Source.change) =
        (s.readOr (s.loadFrom source)).run (sources.map Source.change) :=
      congrArg (run · _) (apply_change s source)
    rcases gives_or_fails source with ⟨facts, h⟩ | ⟨failure, h⟩
    · obtain ⟨more, hmore, hrest⟩ := ih (s.pushAll facts)
      refine ⟨facts ++ more, .loaded h hmore, ?_⟩
      rw [hrun, loadFrom_of_gives s h, pushAll_append, ← hrest]
      rfl
    · obtain ⟨more, hmore, hrest⟩ := ih s
      refine ⟨more, .failed h hmore, ?_⟩
      rw [hrun, loadFrom_of_fails s h, ← hrest]
      rfl

/-- **Loading is all or nothing**: all facts of a source are added, or the failure is that of its
first fault and the store, with its indexes and its graph, stays as it is. After a run of loads the
facts of those that did not fail have been added, and no others. -/
theorem load_all_or_nothing (s : Store) :
    (∀ source : Source,
      (∃ facts, source.Gives facts ∧ s.loadFrom source = .ok (s.add facts) ∧
        Added s facts (s.add facts) ∧ (s.add facts).1.facts = s.facts ++ facts ∧
        (s.add facts).1.graph = s.graph ∧ s.apply source.change = (s.add facts).1) ∨
      ∃ failure, source.Fails failure ∧ s.loadFrom source = .error failure ∧
        s.apply source.change = s) ∧
    ∀ sources : List Source, ∃ facts, Source.AllGive sources facts ∧
      (s.run (sources.map Source.change)).facts = s.facts ++ facts ∧
      s.run (sources.map Source.change) = (s.add facts).1 := by
  refine ⟨fun source => ?_, fun sources => ?_⟩
  · rcases gives_or_fails source with ⟨facts, h⟩ | ⟨failure, h⟩
    · refine Or.inl ⟨facts, h, loadFrom_of_gives s h, added_add s facts, facts_pushAll s facts,
        graph_pushAll s facts, ?_⟩
      rw [apply_change, loadFrom_of_gives s h]
      rfl
    · refine Or.inr ⟨failure, h, loadFrom_of_fails s h, ?_⟩
      rw [apply_change, loadFrom_of_fails s h]
      rfl
  · obtain ⟨facts, hfacts, hrun⟩ := exists_run_loads s sources
    refine ⟨facts, hfacts, ?_, hrun⟩
    rw [hrun, facts_pushAll]

end Store

end ArchFacts
