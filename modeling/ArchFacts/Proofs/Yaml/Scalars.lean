import ArchFacts.Yaml.Layout
import ArchFacts.Yaml.Writer

/-!
# Scalars on a line

A text of characters that stand for themselves, none of which ends the line (`OneLine`), is written
plain or in single quotes. Both are read back as the text (`plain_text`, `singleQuoted_append`), the
plain one up to the next line, which may be indented no further than the block around it.
-/

namespace ArchFacts.Yaml

variable {c : Char} {cs rest next : List Char} {line column least limit : Nat}

/-! ### Characters -/

/-- A text on one line, each character of which stands for itself. -/
def OneLine (cs : List Char) : Prop := ∀ c ∈ cs, isPrintable c = true ∧ isBreak c = false

instance (cs : List Char) : Decidable (OneLine cs) :=
  List.decidableBAll (fun c => isPrintable c = true ∧ isBreak c = false) cs

theorem oneLine_cons :
    OneLine (c :: cs) ↔ (isPrintable c = true ∧ isBreak c = false) ∧ OneLine cs :=
  List.forall_mem_cons

/-- A tab has to be escaped. -/
theorem ne_tab_of_isPrintable (h : isPrintable c = true) : c ≠ '\t' := by
  rintro rfl
  exact absurd h (by decide)

/-- Whether a word starts with a character, wherever it stands. -/
def startsWord (c : Char) : Bool := !isGap c && !isBreak c && c != '#' && c != '\ufeff'

/-- Whether a character can stand in the key of an entry. -/
def isKeyChar (c : Char) : Bool := c.isAlphanum || c == '_'

theorem ne_of_isKeyChar {sign : Char} (h : isKeyChar c = true) (hsign : isKeyChar sign = false) :
    c ≠ sign := by
  rintro rfl
  exact absurd h (by rw [hsign]; exact Bool.false_ne_true)

theorem startsWord_of_isKeyChar (h : isKeyChar c = true) : startsWord c = true := by
  simp (disch := decide) [startsWord, isGap, isBreak, ne_of_isKeyChar h]

theorem isPrintable_of_isKeyChar (h : isKeyChar c = true) : isPrintable c = true := by
  have hkey : (decide ('A' ≤ c ∧ c ≤ 'Z') || (decide ('a' ≤ c) && decide (c ≤ 'z')) ||
      (decide ('0' ≤ c) && decide (c ≤ '9')) || c == '_') = true := h
  simp only [Bool.or_eq_true, Bool.and_eq_true, decide_eq_true_eq, beq_iff_eq] at hkey
  have hrange : '\x20' ≤ c ∧ c ≤ '\x7e' := by
    rcases hkey with ((h | h) | h) | rfl
    · exact ⟨Char.le_trans (by decide) h.1, Char.le_trans h.2 (by decide)⟩
    · exact ⟨Char.le_trans (by decide) h.1, Char.le_trans h.2 (by decide)⟩
    · exact ⟨Char.le_trans (by decide) h.1, Char.le_trans h.2 (by decide)⟩
    · decide
  simp [isPrintable, hrange]

/-- Every character that stands for itself may stand in a text. -/
theorem isAllowed_of_isPrintable (h : isPrintable c = true) : isAllowed c = true := by
  simp only [isPrintable, Bool.or_eq_true, Bool.and_eq_true, decide_eq_true_eq, beq_iff_eq,
    bne_iff_ne] at h
  rcases h with (rfl | hlow) | ⟨⟨⟨hhigh, -⟩, hfffe⟩, hffff⟩
  · decide
  · simp [isAllowed, hlow]
  · have hfffe : c.toNat ≠ 0xFFFE := fun heq => hfffe (Char.toNat_inj.mp heq)
    have hffff : c.toNat ≠ 0xFFFF := fun heq => hffff (Char.toNat_inj.mp heq)
    simp [isAllowed, hhigh]
    omega

/-- A text of characters that stand for themselves has no line break but the line feed and those
that keep their look. -/
theorem unifyBreaks_of_isPrintable (h : ∀ c ∈ cs, isPrintable c = true) : unifyBreaks cs = cs := by
  induction cs with
  | nil => rfl
  | cons c cs ih =>
    obtain ⟨hc, hcs⟩ := List.forall_mem_cons.mp h
    have hreturn : c ≠ '\r' := by
      rintro rfl
      exact absurd hc (by decide)
    have hnext : c ≠ '\u0085' := by
      rintro rfl
      exact absurd hc (by decide)
    simp [unifyBreaks, hreturn, hnext, ih hcs]

theorem startsWord_iff : startsWord c = true ↔
    (c ≠ ' ' ∧ c ≠ '\t') ∧ isBreak c = false ∧ c ≠ '#' ∧ c ≠ '\ufeff' := by
  simp [startsWord, isGap, and_assoc]

/-- Whether a character is a letter, a digit or a sign that is common in paths. -/
def isPathChar (c : Char) : Bool := isKeyChar c || c == '/' || c == '.' || c == '-'

theorem oneLine_of_isPathChar (h : cs.all isPathChar = true) : OneLine cs := by
  intro c hc
  have hpath : isPathChar c = true := List.all_eq_true.mp h c hc
  simp only [isPathChar, Bool.or_eq_true, beq_iff_eq] at hpath
  rcases hpath with ((hkey | rfl) | rfl) | rfl
  · exact ⟨isPrintable_of_isKeyChar hkey, (startsWord_iff.mp (startsWord_of_isKeyChar hkey)).2.1⟩
  · decide
  · decide
  · decide

/-- The column behind a text, reckoned from behind its first character. -/
theorem add_length_cons (column : Nat) (c : Char) (cs : List Char) :
    column + 1 + cs.length = column + (c :: cs).length := by
  rw [List.length_cons, Nat.add_right_comm, Nat.add_assoc]

/-! ### The next line -/

/-- A word starts here, or the text ends. -/
def AtWord (cs : List Char) : Prop := ∀ c ∈ cs.head?, startsWord c = true

/-- The first word of a line. -/
def Cursor.ofLine (line : Nat) (text : List Char) : Cursor :=
  ⟨line, (text.takeWhile (· == ' ')).length, text.dropWhile (· == ' ')⟩

/-- What may stand behind an entry of a block in the next line: a word that is indented no further
than the block, or nothing. -/
def Follows (indent : Nat) (next : List Char) : Prop :=
  (next.takeWhile (· == ' ')).length ≤ indent ∧ AtWord (next.dropWhile (· == ' '))

theorem takeWhile_space (h : c ≠ ' ') : (c :: cs).takeWhile (· == ' ') = [] :=
  List.takeWhile_cons_of_neg (by simpa using h)

theorem dropWhile_space (h : c ≠ ' ') : (c :: cs).dropWhile (· == ' ') = c :: cs :=
  List.dropWhile_cons_of_neg (by simpa using h)

theorem toWord_atWord (h : AtWord cs) (keyAllowed : Bool) :
    Cursor.toWord false false keyAllowed line column cs = (keyAllowed, ⟨line, column, cs⟩) := by
  cases cs with
  | nil => rfl
  | cons c rest =>
    obtain ⟨⟨hspace, htab⟩, hbreak, hcomment, hmark⟩ := startsWord_iff.mp (h c rfl)
    simp [Cursor.toWord, hspace, htab, hbreak, hcomment, hmark]

theorem toWord_space (keyAllowed : Bool) :
    Cursor.toWord false false keyAllowed line column (' ' :: rest) =
      Cursor.toWord false false keyAllowed line (column + 1) rest := by
  rw [Cursor.toWord]
  rfl

/-- On the way to the first word of a line its indentation is passed over. -/
theorem toWord_line (h : AtWord (next.dropWhile (· == ' '))) (keyAllowed : Bool) :
    Cursor.toWord false false keyAllowed line column next =
      (keyAllowed, ⟨line, column + (next.takeWhile (· == ' ')).length,
        next.dropWhile (· == ' ')⟩) := by
  induction next generalizing column with
  | nil => rfl
  | cons c rest ih =>
    by_cases hspace : c = ' '
    · subst hspace
      rw [toWord_space, ih h]
      simp [Nat.add_assoc, Nat.add_comm]
    · rw [dropWhile_space hspace] at h ⊢
      rw [takeWhile_space hspace]
      exact toWord_atWord h keyAllowed

/-- Behind a line break the next word is the first one of the next line. A key may start there. -/
theorem toWord_break (h : Follows limit next) (keyAllowed : Bool) :
    Cursor.toWord false false keyAllowed line column ('\n' :: next) =
      (true, .ofLine (line + 1) next) := by
  have hstep : Cursor.toWord false false keyAllowed line column ('\n' :: next) =
      Cursor.toWord false false true (line + 1) 0 next := by
    rw [Cursor.toWord, Bool.not_false, Bool.or_true]
    rfl
  rw [hstep, toWord_line h.2, Nat.zero_add]
  rfl

/-! ### Plain scalars -/

/-- A plain scalar ends with its line if the next one is not indented enough. -/
theorem plain_line {first : Option Char} {more : List Char}
    (h : AtWord (next.dropWhile (· == ' ')))
    (hleast : column + (next.takeWhile (· == ' ')).length < least) :
    plain false least (.across first more) line column next =
      some ([], .across first more, ⟨line, column + (next.takeWhile (· == ' ')).length,
        next.dropWhile (· == ' ')⟩) := by
  induction next generalizing column with
  | nil => rfl
  | cons c rest ih =>
    by_cases hspace : c = ' '
    · subst hspace
      have hstep : plain false least (.across first more) line column (' ' :: rest) =
          plain false least (.across first more) line (column + 1) rest := by
        simp [plain, isBreak, isGap, Gap.addGap]
      have hcolumn : column + 1 + (rest.takeWhile (· == ' ')).length =
          column + ((' ' :: rest).takeWhile (· == ' ')).length := by
        simp [Nat.add_assoc, Nat.add_comm]
      rw [hstep, ih h (by rwa [hcolumn]), hcolumn]
      rfl
    · rw [dropWhile_space hspace] at h ⊢
      rw [takeWhile_space hspace] at hleast ⊢
      obtain ⟨⟨-, htab⟩, hbreak, -⟩ := startsWord_iff.mp (h c rfl)
      have hcolumn : column < least := hleast
      simp [plain, isGap, hspace, htab, hbreak, Gap.none, endsBefore, hcolumn]

theorem plain_break (h : Follows limit next) (hlimit : limit < least) :
    plain false least .none line column ('\n' :: next) =
      some ([], .across (some '\n') [], .ofLine (line + 1) next) := by
  have hstep : plain false least .none line column ('\n' :: next) =
      plain false least (.across (some '\n') []) (line + 1) 0 next := by
    simp [plain, isBreak, Gap.none, Gap.addBreak]
  have hleast : 0 + (next.takeWhile (· == ' ')).length < least := by
    rw [Nat.zero_add]
    exact Nat.lt_of_le_of_lt h.1 hlimit
  rw [hstep, plain_line h.2 hleast, Nat.zero_add]
  rfl

/-- A character of a plain scalar that is neither a gap nor a sign of its end. -/
theorem plain_cons {gaps : List Char} (hgap : isGap c = false) (hbreak : isBreak c = false)
    (hcolon : c = ':' → endsWord rest = false)
    (hbefore : gaps = [] ∨ c ≠ '#' ∧ least ≤ column ∧ 0 < column) :
    plain false least (.within gaps) line column (c :: rest) =
      (plain false least (.within []) line (column + 1) rest).map fun r =>
        (gaps ++ c :: r.1, r.2) := by
  have hends : ¬((Gap.within gaps) ≠ .none ∧ endsBefore false least column (c :: rest) = true) := by
    rintro ⟨hgaps, hends⟩
    rcases hbefore with rfl | ⟨hcomment, hleast, hcolumn⟩
    · exact hgaps rfl
    · simp [endsBefore, markHere, hcomment, Nat.not_lt.mpr hleast, Nat.ne_of_gt hcolumn] at hends
  have hwithin : endsWithin false (c :: rest) = false := by
    by_cases hc : c = ':'
    · subst hc
      exact hcolon rfl
    · simp [endsWithin]
  rw [plain, hbreak, hgap, if_neg hends]
  simp [hwithin]
  rfl

/-- A space of a plain scalar. -/
theorem plain_space {gaps : List Char} :
    plain false least (.within gaps) line column (' ' :: rest) =
      plain false least (.within (gaps ++ [' '])) line (column + 1) rest := by
  simp [plain, isBreak, isGap, Gap.addGap]

/-- A plain scalar is read as it is, with its spaces, if no colon ends a word in it, no comment
starts in it and it does not end in a space. `gaps` are the spaces before it. -/
theorem plain_append {gaps : List Char} (gap : Bool) (hgap : gaps = [] ∨ gap = true)
    (hline : OneLine cs) (hindicator : hasIndicator gap cs = false)
    (hlast : cs.getLast? ≠ some ' ') (hend : cs = [] → gaps = [])
    (hcolumn : least ≤ column ∧ 0 < column) :
    plain false least (.within gaps) line column (cs ++ rest) =
      (plain false least .none line (column + cs.length) rest).map fun r =>
        (gaps ++ cs ++ r.1, r.2) := by
  induction cs generalizing gaps gap column with
  | nil =>
    obtain rfl := hend rfl
    exact Option.map_id'.symm
  | cons c cs ih =>
    obtain ⟨⟨hprintable, hbreak⟩, hrest⟩ := oneLine_cons.mp hline
    have hnext : least ≤ column + 1 ∧ 0 < column + 1 :=
      ⟨Nat.le_succ_of_le hcolumn.1, Nat.succ_pos column⟩
    simp only [hasIndicator, Bool.or_eq_false_iff, Bool.and_eq_false_imp, beq_iff_eq] at hindicator
    obtain ⟨⟨hcolon, hcomment⟩, hbehind⟩ := hindicator
    by_cases hspace : c = ' '
    · subst hspace
      -- something stands behind the space
      have hne : cs ≠ [] := by
        rintro rfl
        exact hlast rfl
      rw [List.getLast?_cons_of_ne_nil hne] at hlast
      rw [List.cons_append, plain_space, ih true (Or.inr rfl) hrest hbehind hlast
        (fun hnil => absurd hnil hne) hnext, add_length_cons column ' ']
      simp
    · have hgap' : isGap c = false := by
        simp [isGap, hspace, ne_tab_of_isPrintable hprintable]
      have hcolon' : c = ':' → endsWord (cs ++ rest) = false := by
        intro hc
        have hends := hcolon hc
        cases cs with
        | nil => cases hends
        | cons d ds => exact hends
      have hbefore : gaps = [] ∨ c ≠ '#' ∧ least ≤ column ∧ 0 < column :=
        hgap.imp_right fun htrue => ⟨fun hc => by simp [hcomment hc] at htrue, hcolumn⟩
      have hlast' : cs.getLast? ≠ some ' ' := by
        cases cs with
        | nil => nofun
        | cons d ds => rwa [List.getLast?_cons_of_ne_nil (List.cons_ne_nil d ds)] at hlast
      rw [List.cons_append, plain_cons hgap' hbreak hcolon' hbefore,
        ih _ (Or.inl rfl) hrest hbehind hlast' (fun _ => rfl) hnext,
        add_length_cons column c]
      simp [Function.comp_def]

theorem oneLine_of_canBePlain (h : canBePlain cs = true) : OneLine cs := by
  simp only [canBePlain, Bool.and_eq_true, List.all_eq_true] at h
  intro c hc
  obtain ⟨hprintable, hbreak⟩ := h.2 c hc
  exact ⟨hprintable, by simpa using hbreak⟩

/-- **A text that stands plain on its line is read back.** -/
theorem plain_text (h : canBePlain cs = true) (hnext : Follows limit next) (hlimit : limit < least)
    (hcolumn : least ≤ column) :
    plain false least .none line column (cs ++ '\n' :: next) =
      some (cs, .across (some '\n') [], .ofLine (line + 1) next) := by
  have hline := oneLine_of_canBePlain h
  simp only [canBePlain, Bool.and_eq_true, Bool.not_eq_true', bne_iff_ne] at h
  obtain ⟨⟨⟨-, hindicator⟩, hlast⟩, -⟩ := h
  have hpos : 0 < column := Nat.lt_of_lt_of_le (Nat.zero_lt_of_lt hlimit) hcolumn
  rw [Gap.none, plain_append true (Or.inl rfl) hline hindicator hlast (fun _ => rfl)
    ⟨hcolumn, hpos⟩, plain_break hnext hlimit]
  simp

/-- A key is read up to its colon. -/
theorem plain_key (h : ∀ c ∈ cs, isKeyChar c = true) (hrest : endsWord rest = true) :
    plain false least .none line column (cs ++ ':' :: rest) =
      some (cs, .none, ⟨line, column + cs.length, ':' :: rest⟩) := by
  induction cs generalizing column with
  | nil => simp [plain, isBreak, isGap, endsWithin, hrest]
  | cons c cs ih =>
    obtain ⟨hc, hcs⟩ := List.forall_mem_cons.mp h
    obtain ⟨⟨hspace, htab⟩, hbreak, -⟩ := startsWord_iff.mp (startsWord_of_isKeyChar hc)
    have hgap : isGap c = false := by simp [isGap, hspace, htab]
    have hcolon : c = ':' → endsWord (cs ++ ':' :: rest) = false :=
      fun heq => absurd heq (ne_of_isKeyChar hc (by decide))
    have hrest' := @ih (column + 1) hcs
    rw [Gap.none] at hrest' ⊢
    rw [List.cons_append, plain_cons hgap hbreak hcolon (Or.inl rfl), hrest', add_length_cons]
    rfl

/-! ### Single quotes -/

/-- A text in single quotes, from behind the opening one on. -/
def doubleQuotes (cs : List Char) : List Char :=
  cs.flatMap fun c => if c = '\x27' then ['\x27', '\x27'] else [c]

theorem singleQuoted_append {gaps : List Char} (h : OneLine cs) (hcolumn : 0 < column) :
    singleQuoted (.within gaps) line column (doubleQuotes cs ++ '\x27' :: '\n' :: next) =
      some (gaps ++ cs, ⟨line, column + (doubleQuotes cs).length + 1, '\n' :: next⟩) := by
  induction cs generalizing gaps column with
  | nil => simp [doubleQuotes, singleQuoted, Gap.text]
  | cons c cs ih =>
    obtain ⟨⟨hprintable, hbreak⟩, hrest⟩ := oneLine_cons.mp h
    by_cases hquote : c = '\x27'
    · subst hquote
      have hdouble : doubleQuotes ('\x27' :: cs) = '\x27' :: '\x27' :: doubleQuotes cs := rfl
      rw [hdouble, List.cons_append, List.cons_append, singleQuoted, Gap.none,
        ih hrest (Nat.add_pos_left hcolumn 2)]
      simp [Gap.before, Gap.text]
      omega
    · have hdouble : doubleQuotes (c :: cs) = c :: doubleQuotes cs := by
        simp [doubleQuotes, hquote]
      rw [hdouble, List.cons_append]
      by_cases hspace : c = ' '
      · subst hspace
        have hstep (cs : List Char) : singleQuoted (.within gaps) line column (' ' :: cs) =
            singleQuoted (.within (gaps ++ [' '])) line (column + 1) cs := by
          simp [singleQuoted, isBreak, isGap, Gap.addGap]
        rw [hstep, ih hrest (Nat.succ_pos column), add_length_cons column ' ']
        simp
      · have hgap : isGap c = false := by
          simp [isGap, hspace, ne_tab_of_isPrintable hprintable]
        have hmark (cs : List Char) : markHere column cs = false := by
          simp [markHere, Nat.ne_of_gt hcolumn]
        have hstep (cs : List Char) : singleQuoted (.within gaps) line column (c :: cs) =
            (singleQuoted (.within []) line (column + 1) cs).map fun r =>
              (gaps ++ c :: r.1, r.2) := by
          simp [singleQuoted, hquote, hbreak, hgap, hmark]
          rfl
        rw [hstep, ih hrest (Nat.succ_pos column), add_length_cons column c]
        simp

/-! ### How a text is written -/

/-- How a text stands on a line: plain or in single quotes. -/
inductive Written : Style → List Char → List Char → Prop
  | plain {text : List Char} (h : canBePlain text = true) : Written .plain text text
  | quoted {text : List Char} (h : OneLine text) :
      Written .quoted text ('\x27' :: (doubleQuotes text ++ ['\x27']))

/-- The style in which a text on one line is written. -/
def styleOf (cs : List Char) : Style := if isText cs && canBePlain cs then .plain else .quoted

theorem indented_of_oneLine (h : OneLine cs) (indent : Nat) : indented indent false cs = cs := by
  induction cs with
  | nil => rfl
  | cons c cs ih =>
    obtain ⟨⟨-, hbreak⟩, hrest⟩ := oneLine_cons.mp h
    simp [indented, hbreak, ih hrest]

theorem hasLooseSpace_of_oneLine (h : OneLine cs) : hasLooseSpace true true cs = false := by
  induction cs with
  | nil => rfl
  | cons a cs ih =>
    obtain ⟨⟨-, ha⟩, hrest⟩ := oneLine_cons.mp h
    cases cs with
    | nil => rfl
    | cons b cs =>
      have hb := (hrest b List.mem_cons_self).2
      simp [hasLooseSpace, ha, hb, ih hrest]

theorem oneLine_doubleQuotes (h : OneLine cs) : OneLine (doubleQuotes cs) := by
  intro c hc
  obtain ⟨d, hd, hmem⟩ := List.mem_flatMap.mp hc
  have hcd : c = d := by
    split at hmem
    case isTrue hquote => simpa [hquote] using hmem
    case isFalse => simpa using hmem
  rw [hcd]
  exact h d hd

theorem writeSingle_of_oneLine (h : OneLine cs) (indent : Nat) :
    writeSingle indent cs = '\x27' :: (doubleQuotes cs ++ ['\x27']) := by
  have hlast : cs.getLast?.any isBreak = false := by
    cases hc : cs.getLast? with
    | none => rfl
    | some c => exact (h c (List.mem_of_getLast? hc)).2
  have hquoted : indented indent false
      (cs.flatMap fun c => if c = '\x27' then ['\x27', '\x27'] else [c]) = doubleQuotes cs :=
    indented_of_oneLine (oneLine_doubleQuotes h) indent
  rw [writeSingle, hlast, hquoted]
  simp

/-- A text on one line is written plain or in single quotes. -/
theorem written_writeScalar {text : String} (h : OneLine text.toList) (indent : Nat) :
    Written (styleOf text.toList) text.toList (writeScalar indent text) := by
  have hbreak : text.toList.contains '\n' = false := by
    rw [List.contains_eq_mem, decide_eq_false_iff_not]
    exact fun hmem => absurd (h _ hmem).2 (by decide)
  have hprintable : text.toList.all isPrintable = true :=
    List.all_eq_true.mpr fun c hc => (h c hc).1
  rw [writeScalar, styleOf]
  simp only [hbreak, hprintable, hasLooseSpace_of_oneLine h, Bool.false_eq_true, if_false]
  by_cases hplain : (isText text.toList && canBePlain text.toList) = true
  · rw [if_pos hplain, if_pos hplain]
    exact .plain (Bool.and_eq_true_iff.mp hplain).2
  · rw [if_neg hplain, if_neg hplain, if_pos (by decide), writeSingle_of_oneLine h]
    exact .quoted h

/-! ### Numbers -/

theorem digitValue?_of_isDigit (h : c.isDigit = true) : digitValue? 10 c = some (c.toNat - 48) := by
  simp only [Char.isDigit, Bool.and_eq_true, decide_eq_true_eq] at h
  have hrange : '0' ≤ c ∧ c ≤ '9' := h
  have hhigh : c.toNat ≤ 57 := h.2
  have hlt : c.toNat - 48 < 10 := by omega
  rw [digitValue?, if_pos hrange]
  exact if_pos hlt

theorem digits?_of_isDigit (hne : cs ≠ []) (h : ∀ c ∈ cs, c.isDigit = true) :
    digits? 10 cs = some (Nat.ofDigitChars 10 cs 0) := by
  have hfold (cs : List Char) (h : ∀ c ∈ cs, c.isDigit = true) (n : Nat) :
      cs.foldlM (fun n c => (digitValue? 10 c).map (10 * n + ·)) n =
        some (Nat.ofDigitChars 10 cs n) := by
    induction cs generalizing n with
    | nil => rfl
    | cons c cs ih =>
      obtain ⟨hc, hcs⟩ := List.forall_mem_cons.mp h
      rw [List.foldlM_cons, digitValue?_of_isDigit hc]
      exact ih hcs _
  rw [digits?, if_neg hne, hfold cs h]

/-- The digits of a number other than 0 do not start with a zero. -/
theorem head?_toDigits_ne {n : Nat} (h : n ≠ 0) : (Nat.toDigits 10 n).head? ≠ some '0' := by
  induction n using Nat.strongRecOn with
  | ind n ih =>
    by_cases hlt : n < 10
    · have hdigit : ∀ d < 10, d ≠ 0 → [Nat.digitChar d].head? ≠ some '0' := by decide
      rw [Nat.toDigits_of_lt_base hlt]
      exact hdigit n hlt h
    · have hfirst := ih (n / 10) (by omega) (by omega)
      obtain ⟨c, digits, hdigits⟩ := List.exists_cons_of_ne_nil (@Nat.toDigits_ne_nil (n / 10) 10)
      rw [hdigits] at hfirst
      rw [Nat.toDigits_of_base_le (by decide) (Nat.le_of_not_lt hlt), hdigits]
      exact hfirst

theorem isDigit_of_mem_toDigits {n : Nat} (h : c ∈ Nat.toDigits 10 n) : c.isDigit = true :=
  Nat.isDigit_of_mem_toDigits (by decide) (by decide) h

/-- The digits of a number are read as the number. -/
theorem natural?_toDigits (n : Nat) : natural? (Nat.toDigits 10 n) = some n := by
  by_cases hzero : n = 0
  · subst hzero
    rfl
  · have hvalue : digits? 10 (Nat.toDigits 10 n) = some n := by
      rw [digits?_of_isDigit Nat.toDigits_ne_nil fun c => isDigit_of_mem_toDigits,
        Nat.ofDigitChars_toDigits (by decide) (by decide)]
    have hfirst := head?_toDigits_ne hzero
    have hdigits : ∀ c ∈ Nat.toDigits 10 n, c.isDigit = true := fun c => isDigit_of_mem_toDigits
    generalize Nat.toDigits 10 n = cs at hvalue hfirst hdigits
    have hextra : hasExtraZero cs = false := by
      unfold hasExtraZero
      split
      · exact absurd rfl hfirst
      · rfl
    have hmagnitude : magnitude? cs = some n := by
      unfold magnitude?
      split
      · exact absurd rfl hfirst
      · exact absurd rfl hfirst
      · exact absurd rfl hfirst
      · rw [hextra, if_neg Bool.false_ne_true, hvalue]
    unfold natural?
    split
    · exact absurd (hdigits '+' List.mem_cons_self) (by decide)
    · exact hmagnitude

theorem hasIndicator_of_isKeyChar (h : ∀ c ∈ cs, isKeyChar c = true) (gap : Bool) :
    hasIndicator gap cs = false := by
  induction cs generalizing gap with
  | nil => rfl
  | cons c cs ih =>
    obtain ⟨hc, hcs⟩ := List.forall_mem_cons.mp h
    simp (disch := decide) [hasIndicator, ne_of_isKeyChar hc, ih hcs]

theorem startsPlain_of_isKeyChar (h : isKeyChar c = true) (flow : Bool) :
    startsPlain flow (c :: cs) = true := by
  have hdash : c ≠ '-' := ne_of_isKeyChar h (by decide)
  have hquestion : c ≠ '?' := ne_of_isKeyChar h (by decide)
  have hcolon : c ≠ ':' := ne_of_isKeyChar h (by decide)
  have hother : startsPlain flow (c :: cs) =
      (!isGap c && !isBreak c && !indicators.contains c) := by
    simp only [startsPlain]
  simp (disch := decide) [hother, isGap, isBreak, indicators, flowIndicators, ne_of_isKeyChar h]

/-- The digits of a number stand plain. -/
theorem canBePlain_toDigits (n : Nat) : canBePlain (Nat.toDigits 10 n) = true := by
  have hdigits : ∀ c ∈ Nat.toDigits 10 n, c.isDigit = true := fun c => isDigit_of_mem_toDigits
  obtain ⟨first, others, hcons⟩ := List.exists_cons_of_ne_nil (@Nat.toDigits_ne_nil n 10)
  rw [hcons] at hdigits ⊢
  have hkey : ∀ c ∈ first :: others, isKeyChar c = true := fun c hc => by
    simp [isKeyChar, Char.isAlphanum, hdigits c hc]
  have hfirst := hkey first List.mem_cons_self
  have hlast : (first :: others).getLast? ≠ some ' ' := fun h =>
    absurd (hkey ' ' (List.mem_of_getLast? h)) (by decide)
  have hall : (first :: others).all fun c => isPrintable c && !isBreak c := by
    refine List.all_eq_true.mpr fun c hc => ?_
    rw [isPrintable_of_isKeyChar (hkey c hc),
      (startsWord_iff.mp (startsWord_of_isKeyChar (hkey c hc))).2.1]
    rfl
  have hmark (sign : Char) (hsign : isKeyChar sign = false) :
      [sign, sign, sign].isPrefixOf (first :: others) = false := by
    simp [List.isPrefixOf, (ne_of_isKeyChar hfirst hsign).symm]
  rw [canBePlain, startsPlain_of_isKeyChar hfirst, hasIndicator_of_isKeyChar hkey,
    hmark '-' (by decide), hmark '.' (by decide), hall, bne_iff_ne.mpr hlast]
  rfl

end ArchFacts.Yaml
