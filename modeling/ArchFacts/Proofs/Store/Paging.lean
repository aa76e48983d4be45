import Mathlib.Algebra.Order.Floor.Div
import ArchFacts.Proofs.Store.Persistence
import ArchFacts.Store.Query

/-!
# Going through the pages of a query

A client fetches one page after the other, each from where the last one ended, and facts may be
added to the store at any time between. Facts are only ever added after the others, so the matches
that were fetched stay the first matches of the store, and the next page begins right after them
(`InStep`, kept by every step and so by every run). A page without more after it is therefore the
last, and a client that goes on as long as there are more has all matches in the end.

Sizes and offsets are those of a machine. A sum of sizes does not go above the greatest one, so a
page tells truly whether there are more only if the facts can be counted in such a size (`Fits`),
as those of every store can.
-/

namespace ArchFacts

theorem Query.pageSize_pos (q : Query) : 0 < q.pageSize := by
  unfold pageSize defaultLimit greatestLimit
  split <;> omega

namespace Store

variable {s : Store} {q : Query}

/-- The facts that match a query, in order. -/
def matching (s : Store) (q : Query) : List Fact := s.facts.filter q.accepts

/-- The number of facts is a size, as that of all facts that a memory holds is. -/
def Fits (s : Store) : Prop := s.count < UInt64.size

/-! ### One page -/

/-- The facts at positions where they stand. -/
theorem collect_map_snd {entries : List (Fact × Nat)}
    (h : ∀ entry ∈ entries, s.facts[entry.2]? = some entry.1) :
    s.collect (entries.map (·.2)) = entries.map (·.1) := by
  rw [collect, List.filterMap_map, ← List.filterMap_eq_map]
  exact List.filterMap_congr h

/-- The matches with their positions are the matches. -/
theorem map_fst_filter_zipIdx (s : Store) (q : Query) :
    (s.facts.zipIdx.filter fun entry => q.accepts entry.1).map (·.1) = s.matching q := by
  have h : (s.facts.zipIdx.map Prod.fst).filter q.accepts =
      (s.facts.zipIdx.filter (q.accepts ∘ Prod.fst)).map Prod.fst := List.filter_map
  rw [List.zipIdx_map_fst] at h
  exact h.symm

theorem facts_query (s : Store) (q : Query) :
    (s.query q).facts = ((s.matching q).drop q.offset).take q.pageSize := by
  have hentries : ∀ entry ∈ s.facts.zipIdx.filter fun entry => q.accepts entry.1,
      s.facts[entry.2]? = some entry.1 := by
    intro entry hentry
    exact List.mem_zipIdx_iff_getElem?.mp (List.mem_filter.mp hentry).1
  change s.collect ((((s.facts.zipIdx.filter fun entry => q.accepts entry.1).map (·.2)).drop
    q.offset).take q.pageSize) = _
  rw [← List.map_drop, ← List.map_take, collect_map_snd, List.map_take, List.map_drop,
    map_fst_filter_zipIdx]
  intro entry hentry
  exact hentries entry (List.mem_of_mem_drop (List.mem_of_mem_take hentry))

theorem total_query (s : Store) (q : Query) : (s.query q).total = (s.matching q).length := by
  have h := congrArg List.length (map_fst_filter_zipIdx s q)
  rw [List.length_map] at h
  rw [← h]
  exact List.length_map _

theorem length_matching_le (s : Store) (q : Query) : (s.matching q).length ≤ s.count :=
  List.length_filter_le _ _

theorem length_facts_query (s : Store) (q : Query) :
    (s.query q).facts.length = min q.pageSize ((s.matching q).length - q.offset) := by
  rw [facts_query, List.length_take, List.length_drop]

/-- Where the sum of sizes stops growing, there are no more matches in any case. -/
theorem hasMore_query_iff (h : s.Fits) :
    (s.query q).hasMore = true ↔ q.offset + q.pageSize < (s.matching q).length := by
  have hsize : UInt64.size = 18446744073709551616 := rfl
  have hpos := q.pageSize_pos
  have htotal : (s.matching q).length < UInt64.size := Nat.lt_of_le_of_lt (length_matching_le s q) h
  have hoffset : (s.query q).offset = q.offset := rfl
  rw [Page.hasMore, decide_eq_true_iff, Page.addSizes, total_query, length_facts_query, hoffset]
  omega

theorem matching_pushAll (s : Store) (facts : List Fact) (q : Query) :
    (s.pushAll facts).matching q = s.matching q ++ facts.filter q.accepts := by
  rw [matching, facts_pushAll, List.filter_append]
  rfl

end Store

/-- The page of a query of a store: the matches from its offset on, as many as it has room for. -/
structure Page.Answers (page : Page) (q : Query) (s : Store) : Prop where
  offset : page.offset = q.offset
  limit : page.limit = if q.limit = 0 then 100 else min q.limit 500
  facts : page.facts = ((s.matching q).drop page.offset).take page.limit
  total : page.total = (s.matching q).length
  hasMore : page.hasMore = true ↔ (s.matching q).drop (page.offset + page.limit) ≠ []

theorem Store.answers_query {s : Store} (h : s.Fits) (q : Query) : (s.query q).Answers q s where
  offset := rfl
  limit := rfl
  facts := facts_query s q
  total := total_query s q
  hasMore := by
    change _ ↔ (s.matching q).drop (q.offset + q.pageSize) ≠ []
    rw [hasMore_query_iff h, Ne, List.drop_eq_nil_iff, Nat.not_le]

/-! ### The client -/

/-- A client that goes through the pages of a query, and the store that it asks. -/
structure Paging where
  store : Store
  /-- The pages that were fetched, in order. -/
  pages : List Page
  /-- Where the next page begins. -/
  offset : Nat

namespace Paging

variable {q : Query} {p : Paging}

/-- What can happen next. -/
inductive Event where
  | add (facts : List Fact)
  | fetch

/-- Before the first page. -/
def start (s : Store) : Paging := ⟨s, [], 0⟩

/-- The page that is fetched next. -/
def next (q : Query) (p : Paging) : Page := p.store.query { q with offset := p.offset }

/-- Facts are added to the store, or the next page is fetched. -/
def step (q : Query) (p : Paging) : Event → Paging
  | .add facts => { p with store := (p.store.add facts).1 }
  | .fetch =>
    { p with pages := p.pages ++ [p.next q], offset := p.offset + (p.next q).facts.length }

/-- One thing happens after the other. -/
def run (q : Query) (p : Paging) (events : List Event) : Paging := events.foldl (step q) p

/-- The facts that were fetched, page by page. -/
def fetched (p : Paging) : List Fact := p.pages.flatMap (·.facts)

/-- The matches that do not come before the next page. -/
def remaining (q : Query) (p : Paging) : Nat := (p.store.matching q).length - p.offset

theorem fetched_fetch (q : Query) (p : Paging) :
    (p.step q .fetch).fetched = p.fetched ++ (p.next q).facts := by
  change (p.pages ++ [p.next q]).flatMap (·.facts) = _
  rw [List.flatMap_append, List.flatMap_singleton]
  rfl

theorem length_pages_fetch (q : Query) (p : Paging) :
    (p.step q .fetch).pages.length = p.pages.length + 1 :=
  List.length_append

theorem facts_next (q : Query) (p : Paging) :
    (p.next q).facts = ((p.store.matching q).drop p.offset).take q.pageSize :=
  Store.facts_query p.store { q with offset := p.offset }

theorem hasMore_next_iff (hfits : p.store.Fits) :
    (p.next q).hasMore = true ↔ q.pageSize < p.remaining q := by
  have h : (p.next q).hasMore = true ↔ p.offset + q.pageSize < (p.store.matching q).length :=
    Store.hasMore_query_iff (q := { q with offset := p.offset }) hfits
  rw [h, remaining]
  omega

/-- A page takes as many of the matches as it has room for. -/
theorem remaining_fetch (q : Query) (p : Paging) :
    (p.step q .fetch).remaining q = p.remaining q - q.pageSize := by
  have hlength : (p.next q).facts.length = min q.pageSize (p.remaining q) :=
    Store.length_facts_query p.store { q with offset := p.offset }
  have hremaining : (p.step q .fetch).remaining q = p.remaining q - (p.next q).facts.length :=
    Nat.sub_add_eq _ _ _
  rw [hremaining, hlength]
  omega

/-- Fetches a page, and goes on as long as there are more. -/
def finish (q : Query) (p : Paging) (hfits : p.store.Fits) : Paging :=
  if (p.next q).hasMore then (p.step q .fetch).finish q hfits else p.step q .fetch
termination_by p.remaining q
decreasing_by
  rename_i hmore
  have hpos := q.pageSize_pos
  have hroom := (hasMore_next_iff hfits).mp hmore
  rw [remaining_fetch]
  omega

/-! ### What a step keeps -/

/-- What was fetched are the first matches, and the next page begins after them. -/
structure InStep (q : Query) (p : Paging) : Prop where
  offset : p.offset = p.fetched.length
  fetched : p.fetched <+: p.store.matching q

namespace InStep

theorem start (q : Query) (s : Store) : InStep q (start s) := ⟨rfl, List.nil_prefix⟩

/-- The page that is fetched next continues what was fetched. -/
theorem next (h : InStep q p) {rest : List Fact} (hrest : p.fetched ++ rest = p.store.matching q) :
    (p.next q).facts = rest.take q.pageSize := by
  rw [facts_next, ← hrest, h.offset, List.drop_left]

theorem step (h : InStep q p) (event : Event) : InStep q (p.step q event) := by
  cases event with
  | add facts =>
    refine ⟨h.offset, h.fetched.trans ?_⟩
    exact ⟨facts.filter q.accepts, (Store.matching_pushAll p.store facts q).symm⟩
  | fetch =>
    obtain ⟨rest, hrest⟩ := h.fetched
    refine ⟨?_, ?_⟩
    · rw [fetched_fetch, List.length_append, ← h.offset]
      rfl
    · rw [fetched_fetch, h.next hrest]
      refine ⟨rest.drop q.pageSize, ?_⟩
      rw [List.append_assoc, List.take_append_drop]
      exact hrest

theorem run (h : InStep q p) (events : List Event) : InStep q (p.run q events) := by
  induction events generalizing p with
  | nil => exact h
  | cons event rest ih => exact ih (h.step event)

/-- Nothing remains exactly if every match was fetched. -/
theorem remaining_eq_zero_iff (h : InStep q p) :
    p.remaining q = 0 ↔ p.fetched = p.store.matching q := by
  rw [remaining, h.offset, Nat.sub_eq_zero_iff_le]
  constructor
  · exact h.fetched.eq_of_length_le
  · exact fun heq => heq ▸ Nat.le_refl _

/-- A page without more after it is the last one. -/
theorem hasMore_eq_false_iff (h : InStep q p) (hfits : p.store.Fits) :
    (p.next q).hasMore = false ↔ (p.step q .fetch).fetched = p.store.matching q := by
  have hdone := (h.step .fetch).remaining_eq_zero_iff
  rw [remaining_fetch, Nat.sub_eq_zero_iff_le] at hdone
  rw [← Bool.not_eq_true, hasMore_next_iff hfits, Nat.not_lt]
  exact hdone

end InStep

/-! ### The whole loop -/

/-- The pages that so many matches fill; the first one is fetched even if there are none. -/
def pagesFor (size count : Nat) : Nat := max 1 (count ⌈/⌉ size)

theorem pagesFor_of_le {size count : Nat} (hpos : 0 < size) (h : count ≤ size) :
    pagesFor size count = 1 := by
  refine max_eq_left ?_
  rw [ceilDiv_le_iff_le_mul hpos, Nat.mul_one]
  exact h

theorem pagesFor_of_lt {size count : Nat} (hpos : 0 < size) (h : size < count) :
    pagesFor size count = 1 + pagesFor size (count - size) := by
  obtain ⟨rest, rfl⟩ := Nat.exists_eq_add_of_le' h.le
  have hdiv : (rest + size) ⌈/⌉ size = rest ⌈/⌉ size + 1 := by
    rw [Nat.ceilDiv_eq_add_pred_div, Nat.ceilDiv_eq_add_pred_div, ← Nat.add_div_right _ hpos]
    congr 1
    omega
  have hrest : 0 < rest ⌈/⌉ size := by
    rw [Nat.pos_iff_ne_zero, Ne, ← Nat.le_zero, ceilDiv_le_iff_le_mul hpos]
    omega
  rw [pagesFor, pagesFor, hdiv, Nat.add_sub_cancel]
  omega

theorem length_pages_finish (q : Query) (p : Paging) (hfits : p.store.Fits) :
    (p.finish q hfits).pages.length = p.pages.length + pagesFor q.pageSize (p.remaining q) := by
  have hpos := q.pageSize_pos
  fun_induction finish q p hfits with
  | case1 p hfits hmore ih =>
    rw [ih, length_pages_fetch, remaining_fetch,
      pagesFor_of_lt hpos ((hasMore_next_iff hfits).mp hmore), Nat.add_assoc]
  | case2 p hfits hlast =>
    rw [hasMore_next_iff hfits, Nat.not_lt] at hlast
    rw [length_pages_fetch, pagesFor_of_le hpos hlast]

theorem InStep.fetched_finish (h : InStep q p) (hfits : p.store.Fits) :
    (p.finish q hfits).fetched = p.store.matching q := by
  fun_induction finish q p hfits with
  | case1 p hfits hmore ih => exact ih (h.step .fetch)
  | case2 p hfits hlast =>
    exact (h.hasMore_eq_false_iff hfits).mp (Bool.eq_false_of_not_eq_true hlast)

/-- What a client can rely on, whatever it fetched and whatever was added before. -/
structure Faithful (q : Query) (p : Paging) (hfits : p.store.Fits) : Prop where
  /-- A page at any offset, also far behind the last match. -/
  page : ∀ offset, (p.store.query { q with offset }).Answers { q with offset } p.store
  /-- The next page begins after the facts that were fetched. -/
  offset : p.offset = p.fetched.length
  /-- These are the first matches of the store, each of them once and in order. -/
  fetched : p.fetched <+: p.store.matching q
  /-- Without more after the next page, it completes the matches. -/
  last : (p.next q).hasMore = false ↔ (p.step q .fetch).fetched = p.store.matching q
  /-- If nothing is added any more, the loop ends after the pages that the other matches fill. -/
  pages_finish : (p.finish q hfits).pages.length =
    p.pages.length + max 1 (((p.store.matching q).length - p.offset) ⌈/⌉ q.pageSize)
  /-- Then every match was fetched. -/
  fetched_finish : (p.finish q hfits).fetched = p.store.matching q

/-- Fetching pages while facts are added neither loses nor repeats a match. -/
theorem run_faithful (q : Query) (s : Store) (events : List Event)
    (hfits : ((start s).run q events).store.Fits) :
    Faithful q ((start s).run q events) hfits where
  page offset := Store.answers_query hfits { q with offset }
  offset := ((InStep.start q s).run events).offset
  fetched := ((InStep.start q s).run events).fetched
  last := ((InStep.start q s).run events).hasMore_eq_false_iff hfits
  pages_finish := length_pages_finish q _ hfits
  fetched_finish := ((InStep.start q s).run events).fetched_finish hfits

/-- Symbols two at a time, while another one is added after the first page. -/
def appended : Paging :=
  (start (Store.empty.pushAll
      [Fact.of .symbol "a", Fact.of .codeModule "m", Fact.of .symbol "b", Fact.of .symbol "c"])).run
    { kind := some .symbol, limit := 2 }
    [.fetch, .add [Fact.of .symbol "d", Fact.of .symbol "e"], .fetch]

theorem run_faithful_appended :
    ∃ hfits : appended.store.Fits,
      Faithful { kind := some .symbol, limit := 2 } appended hfits ∧
        appended.fetched.map (·.name) = ["a", "b", "c", "d"] ∧
        (appended.finish { kind := some .symbol, limit := 2 } hfits).pages.length = 3 := by
  have hfits : appended.store.Fits := by
    change appended.store.count < UInt64.size
    decide
  have hfaithful := run_faithful { kind := some .symbol, limit := 2 } _ _ hfits
  exact ⟨hfits, hfaithful, by decide, hfaithful.pages_finish⟩

end Paging

end ArchFacts
