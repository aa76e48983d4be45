import ArchFacts.Proofs.Yaml.Scalars

/-!
# The layout of blocks

Reading goes from layout to layout. What it comes to from one of them it comes to from all that lead
there (`Leads`), in no more steps than characters are taken off the text, so that the fuel is
enough. Led from word to word are a key with its colon (`leads_key`), the scalar behind it
(`leads_scalar`), and the end of a block, which is found where the next word stands farther to the
left (`leads_close`).
-/

namespace ArchFacts.Yaml

namespace Layout

variable {s s' s'' : Layout} {tokens : List Token} {indents : List Nat} {cursor cursor' : Cursor}
  {keyAllowed keyAllowed' : Bool}

/-! ### Steps -/

/-- Reading comes from a layout to another one, in no more steps than characters are taken off. -/
def Leads (s s' : Layout) : Prop :=
  ∃ steps, steps + s'.cursor.rest.length ≤ s.cursor.rest.length ∧
    ∀ fuel, s.read? (steps + fuel) = s'.read? fuel

theorem Leads.trans (h : Leads s s') (h' : Leads s' s'') : Leads s s'' := by
  obtain ⟨steps, hle, hread⟩ := h
  obtain ⟨steps', hle', hread'⟩ := h'
  refine ⟨steps + steps', by omega, fun fuel => ?_⟩
  rw [Nat.add_assoc, hread, hread']

/-- What counts is the next word. -/
theorem Leads.of_toWord? (h : s.toWord? = s'.toWord?)
    (hle : s'.cursor.rest.length ≤ s.cursor.rest.length) : Leads s s' := by
  refine ⟨0, by omega, fun fuel => ?_⟩
  rw [Nat.zero_add]
  cases fuel with
  | zero => rfl
  | succ fuel => rw [read?, read?, h]

/-- A token is read. -/
theorem Leads.token (hword : s.toWord? = some s') (hne : s'.cursor.rest ≠ [])
    (hnext : s'.next? = some s'') (hlt : s''.cursor.rest.length < s.cursor.rest.length) :
    Leads s s'' := by
  refine ⟨1, by omega, fun fuel => ?_⟩
  rw [Nat.add_comm, read?, hword]
  simp [hne, hnext]

/-- A text that leads to its end is read. -/
theorem tokens?_of_leads {text : List Char} (h : Leads (Layout.start text) s)
    (hend : s.toWord? = some s') (hrest : s'.cursor.rest = []) :
    tokens? text = s'.finish? := by
  obtain ⟨steps, hle, hread⟩ := h
  have hfuel : text.length + 1 = steps + (text.length - steps + 1) := by
    have hlength : (Layout.start text).cursor.rest.length = text.length := rfl
    omega
  rw [tokens?, hfuel, hread, read?, hend]
  simp [hrest]

/-! ### Blocks -/

/-- A layout in a block, with no key at hand. -/
def inBlock (keyAllowed : Bool) (tokens : List Token) (indents : List Nat) (cursor : Cursor) :
    Layout :=
  ⟨cursor, tokens, tokens.length, indents, keyAllowed, none, []⟩

/-- No block stands farther to the right than a column. -/
def Within (indents : List Nat) (column : Nat) : Prop := ∀ indent ∈ indents.head?, indent ≤ column

theorem closeBlocks_of_within {column : Nat} (h : Within s.indents column) :
    s.closeBlocks (· ≤ column) = s := by
  obtain ⟨cursor, tokens, count, indents, keyAllowed, key, outer⟩ := s
  cases indents with
  | nil => simp [closeBlocks]
  | cons indent rest =>
    have hstays : indent ≤ column := h indent rfl
    simp [closeBlocks, hstays]

theorem toWord?_inBlock
    (h : Cursor.toWord false false keyAllowed cursor.line cursor.column cursor.rest =
      (keyAllowed', cursor')) :
    (inBlock keyAllowed tokens indents cursor).toWord? =
      some ((inBlock keyAllowed' tokens indents cursor').closeBlocks (· ≤ cursor'.column)) := by
  simp [toWord?, inBlock, inFlow, h, dropFarKey?]

theorem isMarkOf_of_ne {c sign : Char} {cs : List Char} (h : c ≠ sign) :
    isMarkOf sign (c :: cs) = false := by
  unfold isMarkOf
  split
  case h_1 a b d rest heq =>
    obtain ⟨rfl, -⟩ := List.cons.inj heq
    simp [h]
  case h_2 => rfl

/-- The next token is a plain scalar. -/
theorem next?_plain {cs : List Char} (houter : s.outer = []) (hrest : s.cursor.rest = cs)
    (hstarts : startsPlain false cs = true)
    (hmark : s.cursor.column = 0 → isMark cs = false) : s.next? = s.plain? := by
  have hflow : s.inFlow = false := by simp [inFlow, houter]
  have hdirective : ¬(s.cursor.column = 0 ∧ cs.head? = some '%') := by
    rintro ⟨-, hpercent⟩
    obtain ⟨rest, rfl⟩ := List.head?_eq_some_iff.mp hpercent
    cases hstarts
  have hmarks : ∀ sign ∈ ['-', '.'], ¬(s.cursor.column = 0 ∧ isMarkOf sign cs = true) := by
    rintro sign hsign ⟨hzero, hmarkOf⟩
    have hno := hmark hzero
    rw [isMark, Bool.or_eq_false_iff] at hno
    simp only [List.mem_cons, List.not_mem_nil, or_false] at hsign
    rcases hsign with rfl | rfl
    · rw [hno.1] at hmarkOf
      cases hmarkOf
    · rw [hno.2] at hmarkOf
      cases hmarkOf
  rw [next?, hrest, hflow, if_neg hdirective, if_neg (hmarks '-' (by decide)),
    if_neg (hmarks '.' (by decide))]
  split
  case h_11 c rest _ _ _ _ _ _ _ _ _ _ =>
    have hword (h : c = '-' ∨ c = '?' ∨ c = ':') : endsWord rest = false := by
      rcases h with rfl | rfl | rfl
      all_goals simpa [startsPlain] using hstarts
    have hbar : c ≠ '|' ∧ c ≠ '>' := by
      constructor
      all_goals
        rintro rfl
        cases hstarts
    rw [if_neg, if_neg, if_neg, if_neg fun h => hbar.1 h.1, if_neg fun h => hbar.2 h.1,
      if_pos hstarts]
    · rintro ⟨hc, h⟩
      simp [hword (Or.inr (Or.inr hc))] at h
    · rintro ⟨hc, h⟩
      simp [hword (Or.inr (Or.inl hc))] at h
    · rintro ⟨hc, h⟩
      simp [hword (Or.inl hc)] at h
  -- no other sign starts a plain scalar
  all_goals cases hstarts

/-- The next token is the colon behind a key. -/
theorem next?_colon {rest : List Char} (hrest : s.cursor.rest = ':' :: rest)
    (hends : endsWord rest = true) : s.next? = s.value? := by
  have hmark (sign : Char) (h : ':' ≠ sign) : isMarkOf sign (':' :: rest) = false :=
    isMarkOf_of_ne h
  simp [next?, hrest, hends, hmark]

/-! ### Keys -/

/-- A text that can stand as a key before its colon. -/
structure IsKey (key : List Char) : Prop where
  ne_nil : key ≠ []
  chars : ∀ c ∈ key, isKeyChar c = true
  length_le : key.length ≤ KeyStart.greatestSize
  size_le : (String.ofList key).utf8ByteSize ≤ KeyStart.greatestSize

instance (key : List Char) : Decidable (IsKey key) :=
  decidable_of_iff (key ≠ [] ∧ key.all isKeyChar = true ∧ key.length ≤ KeyStart.greatestSize ∧
      (String.ofList key).utf8ByteSize ≤ KeyStart.greatestSize)
    ⟨fun ⟨hne, hchars, hlength, hsize⟩ => ⟨hne, List.all_eq_true.mp hchars, hlength, hsize⟩,
      fun ⟨hne, hchars, hlength, hsize⟩ => ⟨hne, List.all_eq_true.mpr hchars, hlength, hsize⟩⟩

namespace IsKey

variable {key rest : List Char}

theorem head? (h : IsKey key) : ∃ first others, key = first :: others ∧
    isKeyChar first = true := by
  obtain ⟨first, others, rfl⟩ := List.exists_cons_of_ne_nil h.ne_nil
  exact ⟨first, others, rfl, h.chars first List.mem_cons_self⟩

theorem atWord (h : IsKey key) : AtWord (key ++ rest) := by
  obtain ⟨first, others, rfl, hfirst⟩ := h.head?
  rintro _ ⟨⟩
  exact startsWord_of_isKeyChar hfirst

theorem startsPlain (h : IsKey key) : startsPlain false (key ++ rest) = true := by
  obtain ⟨first, others, rfl, hfirst⟩ := h.head?
  exact startsPlain_of_isKeyChar hfirst false

/-- A key is no mark at the start or the end of a document. -/
theorem isMark_eq_false (h : IsKey key) : isMark (key ++ rest) = false := by
  obtain ⟨first, others, rfl, hfirst⟩ := h.head?
  rw [List.cons_append, isMark, isMarkOf_of_ne (ne_of_isKeyChar hfirst (by decide)),
    isMarkOf_of_ne (ne_of_isKeyChar hfirst (by decide))]
  rfl

end IsKey

/-- Whether a key at a column is the first one of its block. -/
def opens (indents : List Nat) (column : Nat) : Bool := indents.head?.all (· < column)

/-- What stands before a key at a column: the start of a block if it is the first one there. -/
def opening (indents : List Nat) (column : Nat) : List Token :=
  if opens indents column then [.blockMappingStart] else []

/-- The columns of the blocks around a key. -/
def around (indents : List Nat) (column : Nat) : List Nat :=
  if opens indents column then column :: indents else indents

/-- A layout behind something that may turn out to be a key. -/
def afterKey (tokens : List Token) (indents : List Nat) (key : List Char) (start : Cursor) :
    Layout :=
  { inBlock false (.scalar .plain key :: tokens) indents
      ⟨start.line, start.column + key.length, start.rest.drop key.length⟩ with
    key := some ⟨start, tokens.length, indents.head? == some start.column⟩ }

theorem toWord?_atWord (hword : AtWord cursor.rest)
    (hwithin : Within indents cursor.column) :
    (inBlock keyAllowed tokens indents cursor).toWord? =
      some (inBlock keyAllowed tokens indents cursor) := by
  rw [toWord?_inBlock (toWord_atWord hword keyAllowed)]
  exact congrArg some (closeBlocks_of_within hwithin)

/-- A key is read. -/
theorem plain?_key {key rest : List Char} {line column : Nat} (hkey : IsKey key)
    (hrest : endsWord rest = true) :
    (inBlock true tokens indents ⟨line, column, key ++ ':' :: rest⟩).plain? =
      some (afterKey tokens indents key ⟨line, column, key ++ ':' :: rest⟩) := by
  have hplain (least : Nat) : plain false least .none line column (key ++ ':' :: rest) =
      some (key, .none, ⟨line, column + key.length, ':' :: rest⟩) := plain_key hkey.chars hrest
  have hwithin : Gap.none.isAcross = false := rfl
  simp [plain?, word?, keepKey?, inBlock, inFlow, dropKey?, hplain, add, afterKey, hwithin]

/-- The colon behind a key is not too far from its start. -/
theorem toWord?_afterKey {key rest : List Char} {line column : Nat} (hkey : IsKey key)
    (hwithin : Within indents column) :
    (afterKey tokens indents key ⟨line, column, key ++ ':' :: rest⟩).toWord? =
      some (afterKey tokens indents key ⟨line, column, key ++ ':' :: rest⟩) := by
  have hword : AtWord (':' :: rest) := by
    rintro _ ⟨⟩
    decide
  have hreaches : KeyStart.reaches ⟨⟨line, column, key ++ ':' :: rest⟩, tokens.length,
      indents.head? == some column⟩ ⟨line, column + key.length, ':' :: rest⟩ = true := by
    simp [KeyStart.reaches, hkey.length_le, hkey.size_le]
  have hclose : (afterKey tokens indents key ⟨line, column, key ++ ':' :: rest⟩).closeBlocks
      (· ≤ column + key.length) = afterKey tokens indents key ⟨line, column, key ++ ':' :: rest⟩ :=
    closeBlocks_of_within fun indent hindent =>
      Nat.le_trans (hwithin indent hindent) (Nat.le_add_right _ _)
  simp only [afterKey, inBlock, List.drop_left] at hclose
  simpa [toWord?, afterKey, inBlock, inFlow, toWord_atWord hword, dropFarKey?, hreaches]
    using hclose

/-- A colon is read behind its key. -/
theorem value?_afterKey {key rest : List Char} {line column : Nat} :
    (afterKey tokens indents key ⟨line, column, key ++ ':' :: rest⟩).value? =
      some (inBlock false
        (.value :: .scalar .plain key :: .key :: (opening indents column ++ tokens))
        (around indents column) ⟨line, column + key.length + 1, rest⟩) := by
  have hbefore : tokens.length + 1 + 1 - tokens.length = 2 := by omega
  by_cases hopens : opens indents column = true
  · have hlt : indents.head?.all (· < column) = true := hopens
    simp [value?, afterKey, inBlock, insert, openBlock, inFlow, opening, around, hopens, hlt,
      addSign, add, Cursor.skip, hbefore]
  · have hlt : ¬indents.head?.all (· < column) = true := hopens
    simp [value?, afterKey, inBlock, insert, openBlock, inFlow, opening, around, hopens, hlt,
      addSign, add, Cursor.skip]

/-- **A key leads behind its colon**, and opens a block if it is the first one at its column. -/
theorem leads_key {key rest : List Char} {line column : Nat} (hkey : IsKey key)
    (hrest : endsWord rest = true) (hwithin : Within indents column) :
    Leads (inBlock true tokens indents ⟨line, column, key ++ ':' :: rest⟩)
      (inBlock false (.value :: .scalar .plain key :: .key :: (opening indents column ++ tokens))
        (around indents column) ⟨line, column + key.length + 1, rest⟩) := by
  have hplain : (inBlock true tokens indents ⟨line, column, key ++ ':' :: rest⟩).next? =
      some (afterKey tokens indents key ⟨line, column, key ++ ':' :: rest⟩) :=
    (next?_plain rfl rfl hkey.startsPlain fun _ => hkey.isMark_eq_false).trans
      (plain?_key hkey hrest)
  have hcolon : (afterKey tokens indents key ⟨line, column, key ++ ':' :: rest⟩).next? =
      some (inBlock false
        (.value :: .scalar .plain key :: .key :: (opening indents column ++ tokens))
        (around indents column) ⟨line, column + key.length + 1, rest⟩) :=
    (next?_colon List.drop_left hrest).trans value?_afterKey
  have hafter : (afterKey tokens indents key ⟨line, column, key ++ ':' :: rest⟩).cursor.rest =
      ':' :: rest := List.drop_left
  have hkeyShorter : (':' :: rest).length < (key ++ ':' :: rest).length := by
    rw [List.length_append]
    exact Nat.lt_add_of_pos_left (List.length_pos_iff.mpr hkey.ne_nil)
  refine (Leads.token (toWord?_atWord hkey.atWord hwithin) ?_ hplain ?_).trans
    (Leads.token (toWord?_afterKey hkey hwithin) ?_ hcolon ?_)
  · exact List.append_ne_nil_of_right_ne_nil _ (List.cons_ne_nil _ _)
  · rw [hafter]
    exact hkeyShorter
  · rw [hafter]
    exact List.cons_ne_nil _ _
  · rw [hafter]
    exact Nat.lt_succ_self _

/-! ### Values -/

variable {indent limit line column : Nat} {next text written : List Char} {style : Style}

/-- The end of a line leads to the first word of the next one. -/
theorem leads_line (h : Follows limit next) :
    Leads (inBlock keyAllowed tokens indents ⟨line, column, '\n' :: next⟩)
      (inBlock true tokens indents (.ofLine (line + 1) next)) := by
  refine .of_toWord? ?_ ?_
  · rw [toWord?_inBlock (toWord_break h keyAllowed), toWord?_inBlock (toWord_atWord h.2 true)]
    rfl
  · exact Nat.le_succ_of_le (List.dropWhile_suffix _).length_le

theorem startsPlain_append (h : startsPlain false text = true) (rest : List Char) :
    startsPlain false (text ++ rest) = true := by
  have hends {cs : List Char} (h : endsWord cs = false) : endsWord (cs ++ rest) = false := by
    cases cs with
    | nil => cases h
    | cons c cs => exact h
  unfold startsPlain at h
  split at h
  · cases h
  · simpa [startsPlain] using hends (by simpa using h)
  · simpa [startsPlain] using hends (by simpa using h)
  · simpa [startsPlain] using hends (by simpa using h)
  · simpa [startsPlain] using h

theorem atWord_of_startsPlain (h : startsPlain false text = true) (hline : OneLine text) :
    AtWord (text ++ next) := by
  cases text with
  | nil => cases h
  | cons c cs =>
    rintro _ ⟨⟩
    have hmark : c ≠ '\ufeff' := by
      rintro rfl
      exact absurd (hline _ List.mem_cons_self).1 (by decide)
    unfold startsPlain at h
    split at h
    · cases h
    case h_2 heq => exact (List.cons.inj heq).1 ▸ by decide
    case h_3 heq => exact (List.cons.inj heq).1 ▸ by decide
    case h_4 heq => exact (List.cons.inj heq).1 ▸ by decide
    case h_5 heq =>
      obtain ⟨rfl, -⟩ := List.cons.inj heq
      simp only [Bool.and_eq_true, Bool.not_eq_true'] at h
      have hcomment : c ≠ '#' := by
        rintro rfl
        exact absurd h.2 (by decide)
      simp [startsWord, h.1, hcomment, hmark]

theorem leads_plain (hplain : canBePlain text = true) (hnext : Follows indent next)
    (hcolumn : indent ≤ column) :
    Leads (inBlock false tokens (indent :: indents) ⟨line, column, ' ' :: (text ++ '\n' :: next)⟩)
      (inBlock true (.scalar .plain text :: tokens) (indent :: indents)
        (.ofLine (line + 1) next)) := by
  have hstarts : startsPlain false text = true := by
    simp only [canBePlain, Bool.and_eq_true] at hplain
    exact hplain.1.1.1.1
  have hline := oneLine_of_canBePlain hplain
  have hword : (inBlock false tokens (indent :: indents)
      ⟨line, column, ' ' :: (text ++ '\n' :: next)⟩).toWord? =
        some (inBlock false tokens (indent :: indents)
          ⟨line, column + 1, text ++ '\n' :: next⟩) := by
    rw [toWord?_inBlock ((toWord_space false).trans
      (toWord_atWord (atWord_of_startsPlain hstarts hline) false))]
    refine congrArg some (closeBlocks_of_within ?_)
    rintro _ ⟨⟩
    exact Nat.le_succ_of_le hcolumn
  have hread : plain false (indent + 1) .none line (column + 1) (text ++ '\n' :: next) =
      some (text, .across (some '\n') [], .ofLine (line + 1) next) :=
    plain_text hplain hnext (Nat.lt_succ_self indent) (Nat.succ_le_succ hcolumn)
  have htoken : (inBlock false tokens (indent :: indents)
      ⟨line, column + 1, text ++ '\n' :: next⟩).next? =
        some (inBlock true (.scalar .plain text :: tokens) (indent :: indents)
          (.ofLine (line + 1) next)) := by
    rw [next?_plain rfl rfl (startsPlain_append hstarts _)
      fun h => absurd h (Nat.succ_ne_zero _)]
    simp [plain?, word?, keepKey?, inBlock, inFlow, least, hread, add, Gap.isAcross]
  have hlength : (next.dropWhile (· == ' ')).length ≤ next.length :=
    (List.dropWhile_suffix _).length_le
  refine .token hword ?_ htoken ?_
  · simp [inBlock]
  · simp [inBlock, Cursor.ofLine]
    omega

theorem leads_quoted (hline : OneLine text) (hnext : Follows indent next)
    (hcolumn : indent ≤ column) :
    Leads (inBlock false tokens (indent :: indents)
        ⟨line, column, ' ' :: ('\x27' :: (doubleQuotes text ++ ['\x27']) ++ '\n' :: next)⟩)
      (inBlock true (.scalar .quoted text :: tokens) (indent :: indents)
        (.ofLine (line + 1) next)) := by
  have hsplit : '\x27' :: (doubleQuotes text ++ ['\x27']) ++ '\n' :: next =
      '\x27' :: (doubleQuotes text ++ '\x27' :: '\n' :: next) := by simp
  rw [hsplit]
  have hatWord : AtWord ('\x27' :: (doubleQuotes text ++ '\x27' :: '\n' :: next)) := by
    rintro _ ⟨⟩
    decide
  have hword : (inBlock false tokens (indent :: indents)
      ⟨line, column, ' ' :: '\x27' :: (doubleQuotes text ++ '\x27' :: '\n' :: next)⟩).toWord? =
        some (inBlock false tokens (indent :: indents)
          ⟨line, column + 1, '\x27' :: (doubleQuotes text ++ '\x27' :: '\n' :: next)⟩) := by
    rw [toWord?_inBlock ((toWord_space false).trans (toWord_atWord hatWord false))]
    refine congrArg some (closeBlocks_of_within ?_)
    rintro _ ⟨⟩
    exact Nat.le_succ_of_le hcolumn
  have hread : singleQuoted (.within []) line (column + 2)
      (doubleQuotes text ++ '\x27' :: '\n' :: next) =
        some (text, ⟨line, column + 2 + (doubleQuotes text).length + 1, '\n' :: next⟩) :=
    singleQuoted_append hline (Nat.succ_pos (column + 1))
  have htoken : (inBlock false tokens (indent :: indents)
      ⟨line, column + 1, '\x27' :: (doubleQuotes text ++ '\x27' :: '\n' :: next)⟩).next? =
        some (inBlock false (.scalar .quoted text :: tokens) (indent :: indents)
          ⟨line, column + 2 + (doubleQuotes text).length + 1, '\n' :: next⟩) := by
    have hcolumns : column + 1 + 1 = column + 2 := rfl
    simp [next?, quoted?, word?, keepKey?, inBlock, hcolumns, Cursor.skip, Gap.none, hread, add]
  refine (Leads.token hword ?_ htoken ?_).trans (leads_line hnext)
  · simp [inBlock]
  · simp [inBlock]
    omega

/-- **A scalar leads to the next line.** -/
theorem leads_scalar (h : Written style text written) (hnext : Follows indent next)
    (hcolumn : indent ≤ column) :
    Leads (inBlock false tokens (indent :: indents)
        ⟨line, column, ' ' :: (written ++ '\n' :: next)⟩)
      (inBlock true (.scalar style text :: tokens) (indent :: indents)
        (.ofLine (line + 1) next)) := by
  cases h with
  | plain h => exact leads_plain h hnext hcolumn
  | quoted h => exact leads_quoted h hnext hcolumn

/-- **A block ends before a word that stands farther to the left.** -/
theorem leads_close (hword : AtWord cursor.rest) (hlt : cursor.column < indent) :
    Leads (inBlock true tokens (indent :: indents) cursor)
      (inBlock true (.blockEnd :: tokens) indents cursor) := by
  refine .of_toWord? ?_ (Nat.le_refl _)
  rw [toWord?_inBlock (toWord_atWord hword true), toWord?_inBlock (toWord_atWord hword true)]
  have hnot : ¬indent ≤ cursor.column := Nat.not_le.mpr hlt
  have hends (count : Nat) : Token.blockEnd :: (List.replicate count .blockEnd ++ tokens) =
      List.replicate count .blockEnd ++ .blockEnd :: tokens := by
    rw [← List.cons_append, ← List.replicate_succ, List.replicate_succ', List.append_assoc]
    rfl
  simp [closeBlocks, inBlock, inFlow, hnot, List.map_const', hends, Nat.add_assoc, Nat.add_comm 1]

/-- At the end of the text the outermost block ends. -/
theorem finish?_inBlock : (inBlock keyAllowed tokens [indent] cursor).finish? =
    some (tokens.reverse ++ [.blockEnd]) := by
  simp [finish?, closeBlocks, inBlock, inFlow, dropKey?]

end Layout

end ArchFacts.Yaml
