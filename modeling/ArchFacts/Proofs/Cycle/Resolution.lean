import ArchFacts.Cycle.Target
import ArchFacts.Proofs.Text.Slashes
import Mathlib.Data.List.Infix

/-!
# What a target means

A relative target leads from one directory to another place, segment by segment. Where it leads can
be told without going there: it climbs above the root if one of its beginnings goes up more often
than there are levels above (`Climbs`), and what is left in the end are the names that no later `..`
takes back (`remaining`). So a relative target means nothing exactly if it climbs above the root or
ends there, and else a path that is in order again. Going on from that path is the same as following
both targets in one (`resolve_relative`).
-/

namespace ArchFacts.Cycle

variable {segment : List Char} {names path left : List (List Char)} {depth : Nat}

/-! ### Segments -/

/-- A segment that leads down. -/
def IsName (segment : List Char) : Prop :=
  segment ≠ [] ∧ segment ≠ ['.'] ∧ segment ≠ ['.', '.']

instance (segment : List Char) : Decidable (IsName segment) :=
  inferInstanceAs (Decidable (_ ∧ _ ∧ _))

theorem isName_iff :
    IsName segment ↔ ¬(segment = [] ∨ segment = ['.']) ∧ segment ≠ ['.', '.'] := by
  rw [not_or, and_assoc]
  rfl

/-- How often a path leads down. -/
def downs (path : List (List Char)) : Nat := path.countP fun segment => IsName segment

/-- How often a path leads up. -/
def ups (path : List (List Char)) : Nat := path.countP fun segment => segment = ['.', '.']

theorem downs_stay (h : segment = [] ∨ segment = ['.']) : downs (segment :: path) = downs path := by
  rcases h with rfl | rfl <;> rfl

theorem ups_stay (h : segment = [] ∨ segment = ['.']) : ups (segment :: path) = ups path := by
  rcases h with rfl | rfl <;> rfl

@[simp] theorem downs_up : downs (['.', '.'] :: path) = downs path :=
  List.countP_cons_of_neg (by decide)

@[simp] theorem ups_up : ups (['.', '.'] :: path) = ups path + 1 :=
  List.countP_cons_of_pos (decide_eq_true rfl)

theorem downs_name (h : IsName segment) : downs (segment :: path) = downs path + 1 :=
  List.countP_cons_of_pos (decide_eq_true h)

theorem ups_name (h : IsName segment) : ups (segment :: path) = ups path :=
  List.countP_cons_of_neg (by simpa using h.2.2)

/-! ### Climbing -/

/-- Followed from `depth` levels below the root, a path leads above the root: a beginning of it goes
up more often than it goes down, and by more levels than there are. -/
def Climbs (depth : Nat) (path : List (List Char)) : Prop :=
  ∃ way, way <+: path ∧ depth + downs way < ups way

instance (depth : Nat) (path : List (List Char)) : Decidable (Climbs depth path) :=
  decidable_of_iff (∃ way ∈ path.inits, depth + downs way < ups way) (by
    simp only [List.mem_inits]
    rfl)

@[simp] theorem not_climbs_nil : ¬Climbs depth [] := by
  rintro ⟨way, hway, hclimbs⟩
  obtain rfl := List.prefix_nil.mp hway
  exact Nat.not_lt_zero _ hclimbs

/-- No path has led above the root before its first segment. -/
theorem climbs_cons : Climbs depth (segment :: path) ↔
    ∃ way, way <+: path ∧ depth + downs (segment :: way) < ups (segment :: way) := by
  constructor
  · rintro ⟨way, hway, hclimbs⟩
    rcases List.prefix_cons_iff.mp hway with rfl | ⟨others, rfl, hothers⟩
    · exact absurd hclimbs (Nat.not_lt_zero _)
    · exact ⟨others, hothers, hclimbs⟩
  · rintro ⟨way, hway, hclimbs⟩
    exact ⟨segment :: way, List.cons_prefix_cons.mpr ⟨rfl, hway⟩, hclimbs⟩

theorem climbs_stay (h : segment = [] ∨ segment = ['.']) :
    Climbs depth (segment :: path) ↔ Climbs depth path := by
  refine climbs_cons.trans (exists_congr fun way => and_congr_right fun _ => ?_)
  rw [downs_stay h, ups_stay h]

theorem climbs_name (h : IsName segment) :
    Climbs depth (segment :: path) ↔ Climbs (depth + 1) path := by
  refine climbs_cons.trans (exists_congr fun way => and_congr_right fun _ => ?_)
  rw [downs_name h, ups_name h]
  omega

@[simp] theorem climbs_root_up : Climbs 0 (['.', '.'] :: path) :=
  climbs_cons.mpr ⟨[], List.nil_prefix, Nat.zero_lt_one⟩

@[simp] theorem climbs_succ_up : Climbs (depth + 1) (['.', '.'] :: path) ↔ Climbs depth path := by
  refine climbs_cons.trans (exists_congr fun way => and_congr_right fun _ => ?_)
  rw [downs_up, ups_up]
  omega

/-- What begins with names climbs if the rest of it does, from as many levels farther down. -/
theorem climbs_append (h : ∀ name ∈ names, IsName name) :
    Climbs depth (names ++ path) ↔ Climbs (depth + names.length) path := by
  induction names generalizing depth with
  | nil => rfl
  | cons name names ih =>
    obtain ⟨hname, hnames⟩ := List.forall_mem_cons.mp h
    rw [List.cons_append, climbs_name hname, ih hnames, List.length_cons, Nat.add_right_comm,
      Nat.add_assoc]

/-! ### What is left -/

/-- The names of a path that are not taken back: what follows such a name does not climb above the
place to which the name leads. -/
def remaining : List (List Char) → List (List Char)
  | [] => []
  | segment :: rest =>
    if IsName segment ∧ ¬Climbs 0 rest then segment :: remaining rest else remaining rest

theorem remaining_stay (h : segment = [] ∨ segment = ['.']) :
    remaining (segment :: path) = remaining path := by
  rw [remaining, if_neg fun hname => (isName_iff.mp hname.1).1 h]

theorem remaining_up : remaining (['.', '.'] :: path) = remaining path := by
  rw [remaining, if_neg fun hname => hname.1.2.2 rfl]

/-- A name right before a `..` is taken back by it. -/
theorem remaining_name_up : remaining (segment :: ['.', '.'] :: path) = remaining path := by
  rw [remaining, if_neg fun hname => hname.2 climbs_root_up, remaining_up]

theorem mem_remaining (h : segment ∈ remaining path) : segment ∈ path ∧ IsName segment := by
  induction path with
  | nil => cases h
  | cons first rest ih =>
    rw [remaining] at h
    split at h
    · rename_i hfirst
      rcases List.mem_cons.mp h with rfl | h
      · exact ⟨List.mem_cons_self .., hfirst.1⟩
      · exact ⟨List.mem_cons_of_mem _ (ih h).1, (ih h).2⟩
    · exact ⟨List.mem_cons_of_mem _ (ih h).1, (ih h).2⟩

/-- Behind names, one way to go on can stand for another one that takes back as much. -/
theorem remaining_append_congr {other : List (List Char)} (h : ∀ name ∈ names, IsName name)
    (hclimbs : ∀ depth, Climbs depth path ↔ Climbs depth other)
    (hremaining : remaining path = remaining other) :
    remaining (names ++ path) = remaining (names ++ other) := by
  induction names with
  | nil => exact hremaining
  | cons name names ih =>
    obtain ⟨-, hnames⟩ := List.forall_mem_cons.mp h
    rw [List.cons_append, List.cons_append, remaining, remaining, ih hnames]
    simp only [climbs_append hnames, hclimbs]

theorem remaining_names (h : ∀ name ∈ names, IsName name) : remaining names = names := by
  induction names with
  | nil => rfl
  | cons name names ih =>
    obtain ⟨hname, hnames⟩ := List.forall_mem_cons.mp h
    have hstays : ¬Climbs 0 names := by
      rw [← List.append_nil names, climbs_append hnames]
      exact not_climbs_nil
    rw [remaining, if_pos ⟨hname, hstays⟩, ih hnames]

/-! ### Following segments -/

theorem follow_append (names first second : List (List Char)) :
    follow names (first ++ second) = (follow names first).bind (follow · second) := by
  fun_induction follow names first with
  | case1 names => rfl
  | case2 names segment first hstay ih => rw [List.cons_append, follow, if_pos hstay, ih]
  | case3 first hstay =>
    rw [List.cons_append, follow, if_neg hstay, if_pos rfl, if_pos rfl]
    rfl
  | case4 names first hbelow hstay ih =>
    rw [List.cons_append, follow, if_neg hstay, if_pos rfl, if_neg hbelow, ih]
  | case5 names segment first hstay hup ih =>
    rw [List.cons_append, follow, if_neg hstay, if_neg hup, ih]

/-- Segments can be followed unless they climb above the root. -/
theorem follow_eq_none_iff : follow names path = none ↔ Climbs names.length path := by
  fun_induction follow names path with
  | case1 names => simp
  | case2 names segment path hstay ih => rw [climbs_stay hstay, ih]
  | case3 path hstay => exact iff_of_true rfl climbs_root_up
  | case4 names path hbelow hstay ih =>
    obtain ⟨above, last, rfl⟩ := (List.eq_nil_or_concat' names).resolve_left hbelow
    rw [ih, List.dropLast_concat, List.length_append, List.length_singleton, climbs_succ_up]
  | case5 names segment path hstay hup ih =>
    rw [ih, climbs_name (isName_iff.mpr ⟨hstay, hup⟩), List.length_append, List.length_singleton]

/-- Segments lead as far down as they lead down more often than up. -/
theorem length_follow (h : follow names path = some left) :
    left.length + ups path = names.length + downs path := by
  fun_induction follow names path with
  | case1 names =>
    obtain rfl := Option.some.inj h
    rfl
  | case2 names segment path hstay ih => rw [ups_stay hstay, downs_stay hstay, ih h]
  | case3 path hstay => cases h
  | case4 names path hbelow hstay ih =>
    have habove := ih h
    have hlength := List.length_pos_of_ne_nil hbelow
    rw [List.length_dropLast] at habove
    rw [ups_up, downs_up]
    omega
  | case5 names segment path hstay hup ih =>
    have hbelow := ih h
    have hname := isName_iff.mpr ⟨hstay, hup⟩
    rw [List.length_append, List.length_singleton] at hbelow
    rw [ups_name hname, downs_name hname]
    omega

/-- Segments lead to the root if they lead up as often as it takes. -/
theorem eq_nil_iff_of_follow (h : follow names path = some left) :
    left = [] ↔ names.length + downs path = ups path := by
  rw [← length_follow h, ← List.length_eq_zero_iff]
  omega

/-- From a directory segments lead to those names of both that are not taken back. -/
theorem follow_eq_remaining (hnames : ∀ name ∈ names, IsName name)
    (h : follow names path = some left) : left = remaining (names ++ path) := by
  fun_induction follow names path with
  | case1 names =>
    obtain rfl := Option.some.inj h
    rw [List.append_nil, remaining_names hnames]
  | case2 names segment path hstay ih =>
    rw [ih hnames h]
    exact remaining_append_congr hnames (fun _ => (climbs_stay hstay).symm)
      (remaining_stay hstay).symm
  | case3 path hstay => cases h
  | case4 names path hbelow hstay ih =>
    obtain ⟨above, last, rfl⟩ := (List.eq_nil_or_concat' names).resolve_left hbelow
    obtain ⟨habove, hlast⟩ := List.forall_mem_append.mp hnames
    rw [List.dropLast_concat] at ih h
    rw [ih habove h, List.append_assoc]
    refine remaining_append_congr habove (fun depth => ?_) remaining_name_up.symm
    rw [List.singleton_append, climbs_name (List.forall_mem_singleton.mp hlast), climbs_succ_up]
  | case5 names segment path hstay hup ih =>
    have hname := isName_iff.mpr ⟨hstay, hup⟩
    have hbelow : ∀ name ∈ names ++ [segment], IsName name :=
      List.forall_mem_append.mpr ⟨hnames, List.forall_mem_singleton.mpr hname⟩
    rw [ih hbelow h, List.append_assoc]
    rfl

/-! ### Paths in order -/

/-- The path in order that leads from the root to a place by some names: `.` if that place is the
root itself, else the names with a slash between any two. -/
structure IsPathOf (path : String) (names : List (List Char)) : Prop where
  named : ∀ name ∈ names, IsName name
  whole : ∀ name ∈ names, '/' ∉ name
  text : path.toList = if names = [] then ['.'] else SlashPath.join names

variable {directory target found : String}

namespace IsPathOf

theorem segments_join (h : IsPathOf directory names) (hne : names ≠ []) :
    SlashPath.segments (SlashPath.join names) = names :=
  Text.pieces_joined hne h.whole

/-- A single segment that is no name is not the path. -/
theorem join_ne (h : IsPathOf directory names) (hne : names ≠ []) (hsegment : ¬IsName segment)
    (hwhole : '/' ∉ segment) : SlashPath.join names ≠ segment := by
  intro hjoin
  have hnames : names = [segment] := by
    rw [← h.segments_join hne, hjoin]
    exact Text.pieces_of_notMem hwhole
  refine hsegment (h.named segment ?_)
  rw [hnames]
  exact List.mem_singleton_self segment

theorem directorySegments (h : IsPathOf directory names) :
    directorySegments directory.toList = names := by
  rw [Cycle.directorySegments, h.text]
  by_cases hroot : names = []
  · rw [if_pos hroot, if_pos rfl, hroot]
  · rw [if_neg hroot, if_neg (h.join_ne hroot (by decide) (by decide)), h.segments_join hroot]
    exact List.filter_eq_self.mpr fun name hname => decide_eq_true (h.named name hname).1

/-- What is left after going on from a directory is the path to a place again. -/
theorem follow (h : IsPathOf directory names)
    (hleft : follow names (SlashPath.segments target.toList) = some left) :
    IsPathOf (String.ofList (if left = [] then ['.'] else SlashPath.join left)) left := by
  have hremaining := follow_eq_remaining h.named hleft
  refine ⟨fun name hname => ?_, fun name hname => ?_, String.toList_ofList⟩
  · rw [hremaining] at hname
    exact (mem_remaining hname).2
  · rw [hremaining] at hname
    rcases List.mem_append.mp (mem_remaining hname).1 with hname | hname
    · exact h.whole name hname
    · exact Text.notMem_of_mem_pieces hname

end IsPathOf

/-! ### Targets -/

theorem nonempty?_eq_some_iff {text result : List Char} :
    nonempty? text = some result ↔ text ≠ [] ∧ text = result := by
  unfold nonempty?
  by_cases h : text = []
  · rw [if_pos h]
    exact iff_of_false (Option.some_ne_none result).symm fun hne => hne.1 h
  · rw [if_neg h, Option.some_inj]
    exact (and_iff_right h).symm

/-- A target that is not relative means the same from every directory. -/
theorem resolve_of_not_relative (h : isRelative target.toList = false) :
    resolve directory target =
      (nonempty? (SlashPath.trimSlashes target.toList)).map String.ofList := by
  simp [resolve, h]

/-- A relative target with another one behind it, after a slash, is relative. -/
theorem isRelative_append {cs : List Char} (h : isRelative cs = true) (ds : List Char) :
    isRelative (cs ++ '/' :: ds) = true := by
  unfold isRelative at h
  split at h
  · rfl
  · rfl
  · rfl
  · rfl
  · cases h

/-- A relative target means the place to which its segments lead, unless that is the root. -/
theorem resolve_eq_some_iff (hdirectory : IsPathOf directory names)
    (hrelative : isRelative target.toList = true) :
    resolve directory target = some found ↔
      ∃ left, follow names (SlashPath.segments target.toList) = some left ∧ left ≠ [] ∧
        IsPathOf found left := by
  unfold resolve
  rw [if_pos hrelative, hdirectory.directorySegments]
  simp only [Option.map_eq_some_iff, Option.bind_eq_some_iff, nonempty?_eq_some_iff]
  constructor
  · rintro ⟨_, ⟨_, ⟨left, hleft, rfl⟩, hjoin, rfl⟩, rfl⟩
    have hne : left ≠ [] := by
      rintro rfl
      exact hjoin rfl
    have hfound := hdirectory.follow hleft
    rw [if_neg hne] at hfound
    exact ⟨left, hleft, hne, hfound⟩
  · rintro ⟨left, hleft, hne, hfound⟩
    refine ⟨_, ⟨_, ⟨left, hleft, rfl⟩, hfound.join_ne hne (by decide) (by decide), rfl⟩, ?_⟩
    have htext := hfound.text
    rw [if_neg hne] at htext
    rw [← htext, String.ofList_toList]

theorem resolve_eq_none_iff_follow (hdirectory : IsPathOf directory names)
    (hrelative : isRelative target.toList = true) :
    resolve directory target = none ↔
      ∀ left, follow names (SlashPath.segments target.toList) = some left → left = [] := by
  rw [Option.eq_none_iff_forall_ne_some]
  constructor
  · intro hnone left hleft
    by_contra hne
    have hfound := hdirectory.follow hleft
    exact hnone _ ((resolve_eq_some_iff hdirectory hrelative).mpr ⟨left, hleft, hne, hfound⟩)
  · intro hroot found hfound
    obtain ⟨left, hleft, hne, -⟩ := (resolve_eq_some_iff hdirectory hrelative).mp hfound
    exact hne (hroot left hleft)

/-- A relative target means nothing if its segments climb above the root or lead to the root. -/
theorem resolve_eq_none_iff (hdirectory : IsPathOf directory names)
    (hrelative : isRelative target.toList = true) :
    resolve directory target = none ↔
      Climbs names.length (SlashPath.segments target.toList) ∨
        names.length + downs (SlashPath.segments target.toList) =
          ups (SlashPath.segments target.toList) := by
  rw [resolve_eq_none_iff_follow hdirectory hrelative, ← follow_eq_none_iff]
  cases hleft : follow names (SlashPath.segments target.toList) with
  | none => simp
  | some left =>
    rw [← eq_nil_iff_of_follow hleft]
    simp

/-- **What relative targets mean**, from a directory whose path is in order: a path in order again,
that of the names of both which are not taken back, and never the root. A target means nothing
exactly if its segments climb above the root at some point, or lead up as often as the directory and
they lead down, so that they end at the root. And a target that is written behind another one, after
a slash, means what it means from the path that the other one stands for. -/
theorem resolve_relative (hdirectory : IsPathOf directory names) :
    (∀ target, isRelative target.toList = true →
      let path := SlashPath.segments target.toList
      (∀ found, resolve directory target = some found →
        remaining (names ++ path) ≠ [] ∧ IsPathOf found (remaining (names ++ path))) ∧
      (resolve directory target = none ↔
        Climbs names.length path ∨ names.length + downs path = ups path)) ∧
    ∀ first second between, isRelative first.toList = true → isRelative second.toList = true →
      resolve directory first = some between →
        resolve directory (first ++ "/" ++ second) = resolve between second := by
  refine ⟨fun target hrelative =>
    ⟨fun found hfound => ?_, resolve_eq_none_iff hdirectory hrelative⟩,
    fun first second between hfirst hsecond hbetween => Option.ext fun found => ?_⟩
  · obtain ⟨left, hleft, hne, hpath⟩ := (resolve_eq_some_iff hdirectory hrelative).mp hfound
    rw [← follow_eq_remaining hdirectory.named hleft]
    exact ⟨hne, hpath⟩
  · have htext : (first ++ "/" ++ second).toList = first.toList ++ '/' :: second.toList := by simp
    have hboth : isRelative (first ++ "/" ++ second).toList = true := by
      rw [htext]
      exact isRelative_append hfirst _
    obtain ⟨left, hleft, -, hpath⟩ := (resolve_eq_some_iff hdirectory hfirst).mp hbetween
    rw [resolve_eq_some_iff hdirectory hboth, resolve_eq_some_iff hpath hsecond, htext,
      SlashPath.segments, Text.pieces_append, follow_append]
    rw [SlashPath.segments] at hleft
    rw [hleft]
    rfl

/-- From a directory two levels below the root: the first target has slashes to spare, the second
one goes on from the path that it means. Another one climbs above the root and comes back, and the
last one ends at the root. -/
theorem resolve_relative_chain :
    IsPathOf "internal/api" ["internal".toList, "api".toList] ∧
      isRelative ".././store//".toList = true ∧ isRelative "../../cmd".toList = true ∧
      resolve "internal/api" ".././store//" = some "internal/store" ∧
      IsPathOf "internal/store" (remaining
        (["internal".toList, "api".toList] ++ SlashPath.segments ".././store//".toList)) ∧
      resolve "internal/api" (".././store//" ++ "/" ++ "../../cmd") =
        resolve "internal/store" "../../cmd" ∧
      resolve "internal/api" "../../../internal/api" = none ∧
      resolve "internal/api" "./../x/../.." = none := by
  have hdirectory : IsPathOf "internal/api" ["internal".toList, "api".toList] :=
    ⟨by decide, by decide, by decide⟩
  have hresolve := resolve_relative hdirectory
  have hfirst : resolve "internal/api" ".././store//" = some "internal/store" := by decide
  exact ⟨hdirectory, by decide, by decide, hfirst, ((hresolve.1 _ (by decide)).1 _ hfirst).2,
    hresolve.2 _ _ _ (by decide) (by decide) hfirst,
    (hresolve.1 "../../../internal/api" (by decide)).2.mpr (by decide),
    (hresolve.1 "./../x/../.." (by decide)).2.mpr (by decide)⟩

end ArchFacts.Cycle
