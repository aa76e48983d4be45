import ArchFacts.Directory.Path
import ArchFacts.Proofs.Text.Slashes
import Mathlib.Data.List.Basic

/-!
# Paths that end in a name

Most paths end in a name (`Path.EndsIn`): what they lead to stands under this name in the directory
that the steps before it lead to. The path of the directory above and the staging path are texts
made from the text of the path. They lead to this very directory, and to the name with `.tmp` behind
it in the same directory (`EndsIn.steps_eq`, `EndsIn.steps_staging`), however many slashes and `.`
parts there are in the text.
-/

namespace ArchFacts

namespace Directory

/-- A part of a path that is a name: it has no slash in it and is neither `.` nor `..`. -/
structure IsName (name : List Char) : Prop where
  noSlash : '/' ∉ name
  enters : Step.ofPart? name = some (.enter (String.ofList name))

theorem Step.ofPart?_eq_enter {part : List Char} {name : String}
    (h : Step.ofPart? part = some (.enter name)) : name = String.ofList part := by
  unfold Step.ofPart? at h
  split at h
  case h_4 => exact (Step.enter.inj (Option.some.inj h)).symm
  all_goals cases h

namespace IsName

variable {name : List Char}

theorem ne_nil (h : IsName name) : name ≠ [] := by
  rintro rfl
  cases h.enters

theorem ne_dot (h : IsName name) : name ≠ ['.'] := by
  rintro rfl
  cases h.enters

/-- A name with something behind it is a name, unless what stands behind it is short. -/
theorem append (h : IsName name) {ending : List Char} (hslash : '/' ∉ ending)
    (hlong : 2 ≤ ending.length) : IsName (name ++ ending) where
  noSlash := by simp [h.noSlash, hslash]
  enters := by
    have hlength : 3 ≤ (name ++ ending).length := by
      have hname := List.length_pos_of_ne_nil h.ne_nil
      rw [List.length_append]
      omega
    unfold Step.ofPart?
    split
    case h_4 => rfl
    all_goals simp_all

end IsName

namespace Path

/-! ### The steps of a text -/

/-- The steps between the slashes of a text. -/
def stepsOf (cs : List Char) : List Step := (SlashPath.segments cs).filterMap Step.ofPart?

theorem steps_ofText (path : String) : (ofText path).steps = stepsOf path.toList := rfl

theorem stepsOf_append (cs ds : List Char) : stepsOf (cs ++ '/' :: ds) = stepsOf cs ++ stepsOf ds := by
  rw [stepsOf, SlashPath.segments, Text.pieces_append, List.filterMap_append]
  rfl

theorem stepsOf_of_notMem {cs : List Char} (h : '/' ∉ cs) : stepsOf cs = (Step.ofPart? cs).toList := by
  rw [stepsOf, SlashPath.segments, Text.pieces_of_notMem h, List.filterMap_cons]
  cases Step.ofPart? cs <;> rfl

theorem stepsOf_name {name : List Char} (h : IsName name) :
    stepsOf name = [.enter (String.ofList name)] := by
  rw [stepsOf_of_notMem h.noSlash, h.enters]
  rfl

/-- What trimming takes away are steps that stay where they are. -/
theorem stepsOf_trim (cs : List Char) :
    ∃ n, stepsOf cs = stepsOf (trim cs) ++ List.replicate n .stay := by
  have hreverse (rs : List Char) :
      ∃ n, stepsOf rs.reverse = stepsOf (trimReversed rs).reverse ++ List.replicate n .stay := by
    fun_induction trimReversed rs with
    | case1 rest ih =>
      obtain ⟨n, hn⟩ := ih
      refine ⟨n, ?_⟩
      rw [List.reverse_cons, stepsOf_append rest.reverse [], hn]
      exact List.append_nil _
    | case2 rest ih =>
      obtain ⟨n, hn⟩ := ih
      refine ⟨n + 1, ?_⟩
      rw [List.reverse_cons, List.reverse_cons, List.append_assoc, List.singleton_append,
        stepsOf_append, hn, List.append_assoc, List.replicate_succ']
      rfl
    | case3 cs => exact ⟨0, (List.append_nil _).symm⟩
  obtain ⟨n, hn⟩ := hreverse cs.reverse
  exact ⟨n, by rwa [List.reverse_reverse] at hn⟩

theorem trim_prefix (cs : List Char) : trim cs <+: cs := by
  have hreverse (rs : List Char) : trimReversed rs <:+ rs := by
    fun_induction trimReversed rs with
    | case1 rest ih => exact ih.trans (List.suffix_cons _ _)
    | case2 rest ih => exact (ih.trans (List.suffix_cons _ _)).trans (List.suffix_cons _ _)
    | case3 cs => exact List.suffix_rfl
  have h := List.reverse_prefix.mpr (hreverse cs.reverse)
  rwa [List.reverse_reverse] at h

/-- Only what begins with a slash is trimmed to nothing. -/
theorem head?_of_trim_eq_nil {cs : List Char} (h : trim cs = []) : cs = [] ∨ cs.head? = some '/' := by
  have hreverse (rs : List Char) (hrs : trimReversed rs = []) : rs = [] ∨ rs.getLast? = some '/' := by
    fun_induction trimReversed rs with
    | case1 rest ih =>
      rcases ih hrs with rfl | hlast
      · exact Or.inr rfl
      · exact Or.inr (by rw [List.getLast?_cons, hlast]; rfl)
    | case2 rest ih =>
      rcases ih hrs with rfl | hlast
      · exact Or.inr rfl
      · exact Or.inr (by rw [List.getLast?_cons, List.getLast?_cons, hlast]; rfl)
    | case3 cs => exact Or.inl hrs
  have h := hreverse cs.reverse (List.reverse_eq_nil_iff.mp h)
  rwa [List.reverse_eq_nil_iff, List.getLast?_reverse] at h

/-- Nothing is trimmed behind a name. -/
theorem trim_append_name {name : List Char} (h : IsName name) (front : List Char) :
    trim (front ++ name) = front ++ name := by
  obtain ⟨c, rest, hname⟩ := List.exists_cons_of_ne_nil (mt List.reverse_eq_nil_iff.mp h.ne_nil)
  have hslash : '/' ∉ c :: rest := by
    rw [← hname, List.mem_reverse]
    exact h.noSlash
  have hself : trimReversed (front ++ name).reverse = (front ++ name).reverse := by
    rw [List.reverse_append, hname]
    refine trimReversed.eq_3 _ ?_ ?_
    · rintro after ⟨⟩
      exact hslash List.mem_cons_self
    · intro after heq
      cases rest with
      | nil =>
        obtain ⟨rfl, -⟩ := List.cons.inj heq
        exact h.ne_dot (List.reverse_eq_iff.mp hname)
      | cons d rest =>
        obtain ⟨-, hrest⟩ := List.cons.inj heq
        obtain ⟨rfl, -⟩ := List.cons.inj hrest
        exact hslash (List.mem_cons_of_mem _ List.mem_cons_self)
  rw [trim, hself, List.reverse_reverse]

/-! ### Paths that end in a name -/

/-- The text of a path ends in a name. -/
structure EndsIn (path name : String) : Prop where
  isName : IsName name.toList
  text : path = name ∨ ∃ before, path.toList = before ++ '/' :: name.toList

theorem EndsIn.of_steps {path name : String} (h : (ofText path).steps.getLast? = some (.enter name))
    (hslash : (ofText path).slash = false) : EndsIn path name := by
  rw [steps_ofText] at h
  rcases SlashPath.exists_lastSlash path.toList with hnone | ⟨before, after, hpath, hafter⟩
  · rw [stepsOf_of_notMem hnone] at h
    cases hstep : Step.ofPart? path.toList with
    | none =>
      rw [hstep] at h
      cases h
    | some step =>
      rw [hstep] at h
      obtain rfl := Option.some.inj h
      have hname : name = path := (Step.ofPart?_eq_enter hstep).trans String.ofList_toList
      subst hname
      exact ⟨⟨hnone, by rw [hstep, String.ofList_toList]⟩, Or.inl rfl⟩
  · rw [hpath, stepsOf_append, stepsOf_of_notMem hafter] at h
    cases hstep : Step.ofPart? after with
    | none =>
      -- the last part is empty, so the path ends in its last slash
      have hempty : after = [] := by
        unfold Step.ofPart? at hstep
        split at hstep
        case h_1 => rfl
        all_goals cases hstep
      subst hempty
      have hlast : path.toList.getLast? = some '/' := by rw [hpath, List.getLast?_concat]
      simp [ofText, hlast] at hslash
    | some step =>
      rw [hstep, Option.toList_some, List.getLast?_concat] at h
      obtain rfl := Option.some.inj h
      obtain rfl := Step.ofPart?_eq_enter hstep
      refine ⟨?_, Or.inr ⟨before, ?_⟩⟩
      · rw [String.toList_ofList]
        exact ⟨hafter, hstep⟩
      · rw [String.toList_ofList, hpath]

/-! ### A name in a directory -/

section Inside

variable {name : String}

/-- A name behind a directory, whatever is put between them. -/
theorem inside_cases (directory name : String) :
    directory = "" ∧ inside directory name = name ∨
    ∃ before, directory ≠ "" ∧ (inside directory name).toList = before ++ '/' :: name.toList ∧
      (directory.toList = before ∨ directory.toList = before ++ ['/']) := by
  unfold inside
  by_cases hempty : directory = ""
  · exact Or.inl ⟨hempty, if_pos hempty⟩
  · rw [if_neg hempty]
    refine Or.inr ?_
    split
    case isTrue hlast =>
      obtain ⟨before, hbefore⟩ := List.getLast?_eq_some_iff.mp hlast
      refine ⟨before, hempty, ?_, Or.inr hbefore⟩
      rw [String.toList_append, hbefore, List.append_assoc]
      rfl
    case isFalse => exact ⟨directory.toList, hempty, by simp, Or.inl rfl⟩

theorem endsIn_inside (h : IsName name.toList) (directory : String) :
    EndsIn (inside directory name) name := by
  refine ⟨h, ?_⟩
  rcases inside_cases directory name with ⟨-, hname⟩ | ⟨before, -, hpath, -⟩
  · exact Or.inl hname
  · exact Or.inr ⟨before, hpath⟩

theorem steps_inside (h : IsName name.toList) (directory : String) :
    (ofText (inside directory name)).steps = (ofText directory).steps ++ [.enter name] := by
  have hname := stepsOf_name h
  rw [String.ofList_toList] at hname
  rw [steps_ofText, steps_ofText]
  rcases inside_cases directory name with ⟨rfl, hinside⟩ | ⟨before, -, hpath, hdirectory⟩
  · rw [hinside, hname]
    rfl
  · rw [hpath, stepsOf_append, hname]
    rcases hdirectory with hdirectory | hdirectory
    · rw [hdirectory]
    · rw [hdirectory, stepsOf_append before []]
      exact congrArg (· ++ _) (List.append_nil _).symm

theorem absolute_inside (h : IsName name.toList) (directory : String) :
    (ofText (inside directory name)).absolute = (ofText directory).absolute := by
  change ((inside directory name).toList.head? == some '/') = (directory.toList.head? == some '/')
  rcases inside_cases directory name with ⟨rfl, hinside⟩ | ⟨before, hne, hpath, hdirectory⟩
  · rw [hinside]
    have hfirst : name.toList.head? ≠ some '/' := fun hhead =>
      h.noSlash (List.mem_of_mem_head? hhead)
    exact beq_false_of_ne hfirst
  · rw [hpath]
    cases before with
    | nil =>
      rcases hdirectory with hdirectory | hdirectory
      · exact absurd (String.toList_eq_nil_iff.mp hdirectory) hne
      · rw [hdirectory]
        rfl
    | cons c before =>
      rcases hdirectory with hdirectory | hdirectory
      all_goals
        rw [hdirectory]
        rfl

end Inside

/-! ### The directory above a path, and the staging path -/

/-- A name alone is in no directory that it tells of. -/
theorem above_name {name : String} (h : IsName name.toList) : above name = "" := by
  have htrim : trim name.toList = name.toList := trim_append_name h []
  rw [above, htrim, SlashPath.splitLast_of_notMem h.noSlash]

namespace EndsIn

variable {path name : String}

theorem trim_eq (h : EndsIn path name) : trim path.toList = path.toList := by
  rcases h.text with rfl | ⟨before, hpath⟩
  · exact trim_append_name h.isName []
  · have htrim := trim_append_name h.isName (before ++ ['/'])
    rwa [List.append_assoc, List.singleton_append, ← hpath] at htrim

theorem slash_eq (h : EndsIn path name) : (ofText path).slash = false := by
  refine beq_false_of_ne fun hlast => h.isName.noSlash ?_
  rcases h.text with rfl | ⟨before, hpath⟩
  · exact List.mem_of_getLast? hlast
  · obtain ⟨front, c, hname⟩ := List.eq_nil_or_concat' name.toList |>.resolve_left h.isName.ne_nil
    rw [hpath, hname, ← List.cons_append, ← List.append_assoc, List.getLast?_concat] at hlast
    rw [hname, Option.some.inj hlast]
    exact List.mem_append_right _ List.mem_cons_self

/-- The text of the directory above a path, the steps to it and where they start. -/
theorem above_cases (h : EndsIn path name) :
    path = name ∧ above path = "" ∨
    ∃ before, path.toList = before ++ '/' :: name.toList ∧
      ((above path).toList = trim before ∧ trim before ≠ [] ∨
        above path = "/" ∧ trim before = []) := by
  rcases h.text with rfl | ⟨before, hpath⟩
  · exact Or.inl ⟨rfl, above_name h.isName⟩
  · refine Or.inr ⟨before, hpath, ?_⟩
    rw [above, h.trim_eq, hpath, SlashPath.splitLast_append h.isName.noSlash]
    cases htrim : trim before with
    | nil => exact Or.inr ⟨by simp only [htrim], rfl⟩
    | cons c rest =>
      refine Or.inl ⟨?_, List.cons_ne_nil _ _⟩
      simp only [htrim]
      exact String.toList_ofList

/-- The steps of a path are those of the directory above it, and then the name. -/
theorem steps_eq (h : EndsIn path name) :
    ∃ n, (ofText path).steps =
      (ofText (above path)).steps ++ List.replicate n .stay ++ [.enter name] := by
  have hname := stepsOf_name h.isName
  rw [String.ofList_toList] at hname
  rw [steps_ofText, steps_ofText]
  rcases h.above_cases with ⟨rfl, habove⟩ | ⟨before, hpath, habove⟩
  · rw [habove, hname]
    exact ⟨0, rfl⟩
  · obtain ⟨n, hn⟩ := stepsOf_trim before
    refine ⟨n, ?_⟩
    rw [hpath, stepsOf_append, hname, hn]
    rcases habove with ⟨habove, -⟩ | ⟨habove, htrim⟩
    · rw [habove]
    · rw [habove, htrim]
      rfl

theorem getLast?_steps (h : EndsIn path name) : (ofText path).steps.getLast? = some (.enter name) := by
  obtain ⟨n, hsteps⟩ := h.steps_eq
  rw [hsteps, List.getLast?_concat]

theorem absolute_above (h : EndsIn path name) :
    (ofText (above path)).absolute = (ofText path).absolute := by
  change ((above path).toList.head? == some '/') = (path.toList.head? == some '/')
  rcases h.above_cases with ⟨rfl, habove⟩ | ⟨before, hpath, ⟨habove, htrim⟩ | ⟨habove, htrim⟩⟩
  · have hfirst : path.toList.head? ≠ some '/' := fun hhead =>
      h.isName.noSlash (List.mem_of_mem_head? hhead)
    rw [habove]
    exact (beq_false_of_ne hfirst).symm
  · obtain ⟨c, rest, hcons⟩ := List.exists_cons_of_ne_nil htrim
    obtain ⟨more, hmore⟩ := trim_prefix before
    have hbefore : before = c :: rest ++ more := hmore.symm.trans (congrArg (· ++ more) hcons)
    rw [habove, hcons, hpath, hbefore]
    rfl
  · rw [habove, hpath]
    rcases head?_of_trim_eq_nil htrim with rfl | hhead
    · rfl
    · rw [List.head?_append, hhead]
      rfl

theorem fileName?_eq (h : EndsIn path name) : fileName? path = some name := by
  have henters := h.isName.enters
  rw [String.ofList_toList] at henters
  unfold fileName?
  rcases h.text with rfl | ⟨before, hpath⟩
  · rw [h.trim_eq, SlashPath.splitLast_of_notMem h.isName.noSlash]
    simp only [henters]
  · rw [h.trim_eq, hpath, SlashPath.splitLast_append h.isName.noSlash]
    simp only [henters]

theorem isName_staged (h : EndsIn path name) : IsName (name ++ ".tmp").toList := by
  rw [String.toList_append]
  exact h.isName.append (by decide) (by decide)

theorem staging_eq (h : EndsIn path name) : staging path = inside (above path) (name ++ ".tmp") := by
  rw [staging, h.fileName?_eq]

/-- The staging path ends in the name with `.tmp` behind it. -/
theorem endsIn_staging (h : EndsIn path name) : EndsIn (staging path) (name ++ ".tmp") := by
  rw [h.staging_eq]
  exact endsIn_inside h.isName_staged _

theorem steps_staging (h : EndsIn path name) :
    (ofText (staging path)).steps = (ofText (above path)).steps ++ [.enter (name ++ ".tmp")] := by
  rw [h.staging_eq]
  exact steps_inside h.isName_staged _

theorem absolute_staging (h : EndsIn path name) :
    (ofText (staging path)).absolute = (ofText path).absolute := by
  rw [h.staging_eq, absolute_inside h.isName_staged, h.absolute_above]

end EndsIn

/-! ### Paths with slashes and `.` parts behind their name -/

/-- A part that is entered is a name. -/
theorem isName_of_enter {last : List Char} {name : String} (hslash : '/' ∉ last)
    (h : Step.ofPart? last = some (.enter name)) : IsName name.toList ∧ last = name.toList := by
  obtain rfl := Step.ofPart?_eq_enter h
  rw [String.toList_ofList]
  exact ⟨⟨hslash, h⟩, rfl⟩

/-- A path whose last part is a name ends in it when it is trimmed. -/
theorem endsIn_trim {path name : String} (h : fileName? path = some name) :
    EndsIn (String.ofList (trim path.toList)) name := by
  unfold fileName? at h
  rcases SlashPath.exists_lastSlash (trim path.toList) with hnone | ⟨before, after, htrim, hafter⟩
  · rw [SlashPath.splitLast_of_notMem hnone] at h
    dsimp only at h
    split at h
    case h_2 => cases h
    case h_1 found hstep =>
      obtain rfl := Option.some.inj h
      obtain ⟨hisName, hlast⟩ := isName_of_enter hnone hstep
      exact ⟨hisName, Or.inl (by rw [hlast, String.ofList_toList])⟩
  · rw [htrim, SlashPath.splitLast_append hafter] at h
    dsimp only at h
    split at h
    case h_2 => cases h
    case h_1 found hstep =>
      obtain rfl := Option.some.inj h
      obtain ⟨hisName, hlast⟩ := isName_of_enter hafter hstep
      exact ⟨hisName, Or.inr ⟨before, by rw [String.toList_ofList, htrim, hlast]⟩⟩

/-- The staging path and the directory above do not depend on what is trimmed. -/
theorem staging_trim {path name : String} (h : fileName? path = some name) :
    staging (String.ofList (trim path.toList)) = staging path ∧
      above (String.ofList (trim path.toList)) = above path := by
  have hends := endsIn_trim h
  have habove : above (String.ofList (trim path.toList)) = above path := by
    rw [above, above, hends.trim_eq, String.toList_ofList]
  refine ⟨?_, habove⟩
  rw [hends.staging_eq, habove, staging, h]

end Path

end Directory

end ArchFacts
