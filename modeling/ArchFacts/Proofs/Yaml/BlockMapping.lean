import ArchFacts.Proofs.Yaml.Layout
import ArchFacts.Yaml.Document

/-!
# Mappings in blocks

A mapping whose entries stand one a line, and whose values stand on the line of their key or are
mappings in the lines below it that are indented further (`Laid`), is read: as its tokens
(`tokens?_of_laid`), and then as its node (`ofText?_of_laid`).
-/

namespace ArchFacts.Yaml

mutual

/-- What stands behind the colon of a key in a block at a column: the text up to the first line that
is not below the key, its tokens, and the value. -/
inductive LaidValue : Nat → List Char → List Token → Node → Prop
  | scalar {indent : Nat} {style : Style} {text written : List Char}
      (h : Written style text written) :
      LaidValue indent (' ' :: (written ++ ['\n'])) [.scalar style text]
        (.scalar {} style (String.ofList text))
  | missing {indent : Nat} : LaidValue indent ['\n'] [] .missing
  | mapping {indent : Nat} (inner : Nat) {text : List Char} {tokens : List Token}
      {entries : List (Node × Node)} (hdeeper : indent < inner) (hne : entries ≠ [])
      (h : Laid inner text tokens entries) :
      LaidValue indent ('\n' :: text) (.blockMappingStart :: (tokens ++ [.blockEnd]))
        (.mapping {} entries)

/-- The entries of a mapping in a block at a column: their lines, and their tokens. -/
inductive Laid : Nat → List Char → List Token → List (Node × Node) → Prop
  | nil {indent : Nat} : Laid indent [] [] []
  | cons {indent : Nat} (key : List Char) {value text : List Char}
      {valueTokens tokens : List Token} {node : Node} {entries : List (Node × Node)}
      (hkey : Layout.IsKey key)
      (hvalue : LaidValue indent value valueTokens node) (h : Laid indent text tokens entries) :
      Laid indent (List.replicate indent ' ' ++ (key ++ ':' :: (value ++ text)))
        (.key :: .scalar .plain key :: .value :: (valueTokens ++ tokens))
        ((.scalar {} .plain (String.ofList key), node) :: entries)

end

namespace Layout

variable {indent limit line column : Nat} {key text rest next : List Char}
  {tokens before : List Token} {indents : List Nat} {node : Node} {entry : Node × Node}
  {entries : List (Node × Node)}

/-! ### Lines -/

theorem takeWhile_indented (h : IsKey key) :
    (List.replicate indent ' ' ++ (key ++ rest)).takeWhile (· == ' ') =
      List.replicate indent ' ' := by
  obtain ⟨first, others, rfl, hfirst⟩ := h.head?
  have hspace : first ≠ ' ' := ne_of_isKeyChar hfirst (by decide)
  simp [hspace]

theorem dropWhile_indented (h : IsKey key) :
    (List.replicate indent ' ' ++ (key ++ rest)).dropWhile (· == ' ') = key ++ rest := by
  obtain ⟨first, others, rfl, hfirst⟩ := h.head?
  have hspace : first ≠ ' ' := ne_of_isKeyChar hfirst (by decide)
  simp [hspace]

theorem ofLine_indented (h : IsKey key) :
    Cursor.ofLine line (List.replicate indent ' ' ++ (key ++ rest)) =
      ⟨line, indent, key ++ rest⟩ := by
  rw [Cursor.ofLine, takeWhile_indented h, dropWhile_indented h, List.length_replicate]

theorem follows_indented (h : IsKey key) (hlimit : indent ≤ limit) :
    Follows limit (List.replicate indent ' ' ++ (key ++ rest)) := by
  rw [Follows, takeWhile_indented h, dropWhile_indented h, List.length_replicate]
  exact ⟨hlimit, h.atWord⟩

theorem follows_laid (h : Laid indent text tokens entries) (hnext : Follows indent next) :
    Follows indent (text ++ next) := by
  cases h with
  | nil => exact hnext
  | cons _ hkey _ _ =>
    rw [List.append_assoc, List.append_assoc]
    exact follows_indented hkey (Nat.le_refl indent)

theorem endsWord_laidValue (h : LaidValue indent text tokens node) :
    endsWord (text ++ next) = true := by
  cases h <;> rfl

/-! ### Tokens -/

/-- In a block at a column, what stands behind a colon is read as some tokens, up to a line. -/
def LeadsBehind (indent : Nat) (text : List Char) (tokens : List Token) (next : List Char) : Prop :=
  ∀ (line : Nat) {column : Nat} (before : List Token) (outer : List Nat), indent ≤ column →
    ∃ line', Leads (inBlock false before (indent :: outer) ⟨line, column, text ++ next⟩)
      (inBlock true (tokens.reverse ++ before) (indent :: outer) (.ofLine line' next))

/-- In a block at a column, some lines are read as some tokens, up to another line. The first of
them opens the block if it is not open. -/
def LeadsThrough (indent : Nat) (text : List Char) (tokens : List Token) (next : List Char) :
    Prop :=
  ∀ (line : Nat) (before : List Token) {indents : List Nat}, Within indents indent →
    ∃ line', Leads (inBlock true before indents (.ofLine line (text ++ next)))
      (inBlock true (tokens.reverse ++ (opening indents indent ++ before)) (around indents indent)
        (.ofLine line' next))

/-- Behind its first entry a block is open. -/
theorem around_eq (h : Within indents indent) :
    ∃ outer, around indents indent = indent :: outer := by
  by_cases hopens : opens indents indent = true
  · exact ⟨indents, if_pos hopens⟩
  · cases indents with
    | nil => exact absurd rfl hopens
    | cons first outer =>
      have hle : first ≤ indent := h first rfl
      have hge : indent ≤ first := by simpa [opens] using hopens
      obtain rfl := Nat.le_antisymm hle hge
      exact ⟨outer, if_neg hopens⟩

theorem leadsThrough_entry {value : List Char} {valueTokens : List Token} (hkey : IsKey key)
    (hends : endsWord (value ++ next) = true) (hvalue : LeadsBehind indent value valueTokens next) :
    LeadsThrough indent (List.replicate indent ' ' ++ (key ++ ':' :: value))
      (.key :: .scalar .plain key :: .value :: valueTokens) next := by
  intro line before indents hwithin
  obtain ⟨outer, houter⟩ := around_eq hwithin
  obtain ⟨line', hvalue⟩ := hvalue line
    (.value :: .scalar .plain key :: .key :: (opening indents indent ++ before)) outer
    (Nat.le_add_right indent (key.length + 1))
  refine ⟨line', ?_⟩
  rw [List.append_assoc, List.append_assoc, ofLine_indented hkey, houter]
  have hcolon : Leads
      (inBlock true before indents ⟨line, indent, key ++ ':' :: (value ++ next)⟩) _ :=
    leads_key hkey hends hwithin
  rw [houter] at hcolon
  simpa using hcolon.trans hvalue

/-- Lines follow on lines. -/
theorem LeadsThrough.append {front back : List Char} {frontTokens backTokens : List Token}
    (hfront : LeadsThrough indent front frontTokens (back ++ next))
    (hback : LeadsThrough indent back backTokens next) :
    LeadsThrough indent (front ++ back) (frontTokens ++ backTokens) next := by
  intro line before indents hwithin
  obtain ⟨outer, houter⟩ := around_eq hwithin
  have hopens : ¬opens (indent :: outer) indent = true := by simp [opens]
  have hopen : Within (indent :: outer) indent := by
    rintro _ ⟨⟩
    exact Nat.le_refl indent
  obtain ⟨line₁, hfront⟩ := hfront line before hwithin
  rw [houter] at hfront
  obtain ⟨line₂, hback⟩ := hback line₁ _ hopen
  rw [opening, around, if_neg hopens, if_neg hopens] at hback
  refine ⟨line₂, ?_⟩
  rw [houter]
  simpa using hfront.trans hback

/-- Lines that are indented further than the block lie in a block of their own. -/
theorem LeadsThrough.behind {inner : Nat} (h : LeadsThrough inner text tokens next)
    (hlimit : Follows limit (text ++ next)) (hnext : Follows indent next)
    (hdeeper : indent < inner) :
    LeadsBehind indent ('\n' :: text) (.blockMappingStart :: (tokens ++ [.blockEnd])) next := by
  intro line column before outer _
  have hwithin : Within (indent :: outer) inner := by
    rintro _ ⟨⟩
    exact Nat.le_of_lt hdeeper
  have hopens : opens (indent :: outer) inner = true := by simpa [opens] using hdeeper
  obtain ⟨line', hentries⟩ := h (line + 1) before hwithin
  rw [opening, around, if_pos hopens, if_pos hopens] at hentries
  have hleft : (Cursor.ofLine line' next).column < inner := Nat.lt_of_le_of_lt hnext.1 hdeeper
  refine ⟨line', (leads_line hlimit).trans (hentries.trans ?_)⟩
  simpa using leads_close hnext.2 hleft

end Layout

open Layout

mutual

/-- **The value of a key is read up to the first line that is not below the key.** -/
theorem LaidValue.leads : ∀ {indent : Nat} {text : List Char} {tokens : List Token} {node : Node},
    LaidValue indent text tokens node → ∀ {next : List Char}, Follows indent next →
      LeadsBehind indent text tokens next
  | _, _, _, _, .scalar h, _, hnext => by
    intro line column before outer hcolumn
    refine ⟨line + 1, ?_⟩
    rw [List.cons_append, List.append_assoc]
    exact leads_scalar h hnext hcolumn
  | _, _, _, _, .missing, _, hnext => fun line _ _ _ _ => ⟨line + 1, leads_line hnext⟩
  | _, _, _, _, .mapping inner hdeeper hne h, next, hnext =>
    have hinner : Follows inner next := ⟨Nat.le_trans hnext.1 (Nat.le_of_lt hdeeper), hnext.2⟩
    (h.leads hne hinner).behind (follows_laid h hinner) hnext hdeeper

/-- **The entries of a mapping are read up to the line behind them.** -/
theorem Laid.leads : ∀ {indent : Nat} {text : List Char} {tokens : List Token}
    {entries : List (Node × Node)}, Laid indent text tokens entries → entries ≠ [] →
    ∀ {next : List Char}, Follows indent next → LeadsThrough indent text tokens next
  | _, _, _, _, .nil, hne, _, _ => absurd rfl hne
  | _, _, _, _ :: entries, .cons key hkey hvalue h, _, next, hnext => by
    have hfirst := leadsThrough_entry hkey (endsWord_laidValue hvalue)
      (hvalue.leads (follows_laid h hnext))
    by_cases hlast : entries = []
    · subst hlast
      cases h
      simpa using hfirst
    · simpa using hfirst.append (h.leads hlast hnext)

end

variable {indent : Nat} {text : List Char} {tokens rest : List Token} {node : Node}
  {entries : List (Node × Node)} {handles : List (String × Tag)} {anchors : List (String × Nat)}

/-- The tokens of a mapping that stands in the first column. -/
theorem tokens?_of_laid (h : Laid 0 text tokens entries) (hne : entries ≠ []) :
    tokens? text = some (.blockMappingStart :: (tokens ++ [.blockEnd])) := by
  have hnil : Follows 0 [] := ⟨Nat.le_refl 0, by rintro _ ⟨⟩⟩
  have hfollows := follows_laid h hnil
  rw [List.append_nil] at hfollows
  have houtside : Within [] 0 := by rintro _ ⟨⟩
  obtain ⟨line, hentries⟩ := h.leads hne hnil 0 [] houtside
  rw [List.append_nil] at hentries
  have hstart : Leads (Layout.start text) (inBlock true [] [] (.ofLine 0 text)) := by
    refine .of_toWord? ?_ (List.dropWhile_suffix _).length_le
    have hline : Cursor.toWord false false true 0 0 text = (true, .ofLine 0 text) := by
      rw [toWord_line hfollows.2, Nat.zero_add]
      rfl
    exact (toWord?_inBlock hline).trans (toWord?_inBlock (toWord_atWord hfollows.2 true)).symm
  have hopen : around [] 0 = [0] := rfl
  have hwithin : Within [0] (Cursor.ofLine line []).column := by
    rintro _ ⟨⟩
    exact Nat.zero_le _
  rw [hopen] at hentries
  rw [tokens?_of_leads (hstart.trans hentries) (toWord?_atWord hnil.2 hwithin) rfl,
    finish?_inBlock]
  simp [opening, opens]

/-! ### Nodes -/

namespace Read

variable {α β : Type} {s s' s'' : Reading} {fuel : Nat} {key value : Node} {text : List Char}

theorem bind_apply {x : Read α} {f : α → Read β} {a : α} (h : x s = some (a, s')) :
    (x >>= f) s = f a s' := by
  change (x s).bind _ = _
  rw [h]
  rfl

theorem accept_self {token : Token} :
    accept token ⟨token :: rest, handles, anchors⟩ = some (true, ⟨rest, handles, anchors⟩) := by
  have hself : (some token == some token) = true := beq_self_eq_true _
  have hpeek : peek ⟨token :: rest, handles, anchors⟩ =
      some (some token, ⟨token :: rest, handles, anchors⟩) := rfl
  rw [accept, bind_apply hpeek, if_pos hself]
  rfl

/-- What ends the key or the value of an entry in a block. -/
abbrev entryEnds : List Token := [.key, .value, .blockEnd]

theorem nodeUnless_scalar {style : Style} :
    nodeUnless entryEnds true true (fuel + 2)
        ⟨.scalar style text :: rest, handles, anchors⟩ =
      some (.scalar {} style (String.ofList text), ⟨rest, handles, anchors⟩) := rfl

theorem nodeUnless_missing {token : Token} (h : token ∈ entryEnds) :
    nodeUnless entryEnds true true (fuel + 1) ⟨token :: rest, handles, anchors⟩ =
      some (.missing, ⟨token :: rest, handles, anchors⟩) := by
  have hpeek : peek ⟨token :: rest, handles, anchors⟩ =
      some (some token, ⟨token :: rest, handles, anchors⟩) := rfl
  have hends : (some token).any entryEnds.contains = true := List.contains_iff_mem.mpr h
  rw [nodeUnless, bind_apply hpeek, if_pos hends]
  rfl

/-- The entries of a mapping, behind its start. -/
theorem node_mapping (indentless : Bool)
    (h : blockEntries fuel ⟨rest, handles, anchors⟩ = some (entries, s)) :
    Read.node true indentless (fuel + 1) ⟨.blockMappingStart :: rest, handles, anchors⟩ =
      some (.mapping {} entries, s) :=
  bind_apply (f := fun entries => pure (Node.mapping {} entries)) h

theorem blockEntries_key {rest' : List Token}
    (hkey : nodeUnless entryEnds true true fuel ⟨rest, handles, anchors⟩ =
      some (key, ⟨.value :: rest', handles, anchors⟩))
    (hvalue : nodeUnless entryEnds true true fuel ⟨rest', handles, anchors⟩ = some (value, s))
    (hentries : blockEntries fuel s = some (entries, s')) :
    blockEntries (fuel + 1) ⟨.key :: rest, handles, anchors⟩ =
      some ((key, value) :: entries, s') := by
  rw [blockEntries, bind_apply accept_self, if_pos rfl, bind_apply hkey, bind_apply accept_self,
    if_pos rfl, bind_apply hvalue]
  exact bind_apply (f := fun entries => pure ((key, value) :: entries)) hentries

/-- Behind a value another key comes, or the end. -/
theorem exists_entryEnd (h : Laid indent text tokens entries) (rest : List Token) :
    ∃ token after, tokens ++ .blockEnd :: rest = token :: after ∧ token ∈ entryEnds := by
  cases h with
  | nil => exact ⟨.blockEnd, rest, rfl, by decide⟩
  | cons => exact ⟨.key, _, rfl, by decide⟩

mutual

/-- **The value of a key is read from its tokens.** -/
theorem nodeUnless_laidValue : ∀ {indent : Nat} {text : List Char} {tokens : List Token}
    {node : Node}, LaidValue indent text tokens node → ∀ {token : Token} (rest : List Token)
      (handles : List (String × Tag)) (anchors : List (String × Nat)) {fuel : Nat},
      token ∈ entryEnds → tokens.length + 2 ≤ fuel →
      nodeUnless entryEnds true true fuel ⟨tokens ++ token :: rest, handles, anchors⟩ =
        some (node, ⟨token :: rest, handles, anchors⟩)
  | _, _, _, _, .scalar _, _, _, _, _, _ + 2, _, _ => nodeUnless_scalar
  | _, _, _, _, .missing, _, _, _, _, _ + 1, htoken, _ => nodeUnless_missing htoken
  | _, _, _, _, .mapping _ _ _ h, token, rest, handles, anchors, fuel + 2, _, hfuel => by
    rw [List.length_cons, List.length_append, List.length_singleton] at hfuel
    rw [List.cons_append, List.append_assoc]
    exact node_mapping true
      (blockEntries_laid h (token :: rest) handles anchors (Nat.le_of_add_le_add_right hfuel))

/-- **The entries of a mapping are read from their tokens.** -/
theorem blockEntries_laid : ∀ {indent : Nat} {text : List Char} {tokens : List Token}
    {entries : List (Node × Node)}, Laid indent text tokens entries → ∀ (rest : List Token)
      (handles : List (String × Tag)) (anchors : List (String × Nat)) {fuel : Nat},
      tokens.length + 2 ≤ fuel →
      blockEntries fuel ⟨tokens ++ .blockEnd :: rest, handles, anchors⟩ =
        some (entries, ⟨rest, handles, anchors⟩)
  | _, _, _, _, .nil, _, _, _, _ + 1, _ => rfl
  | _, _, _, _, .cons _ _ hvalue h, rest, handles, anchors, fuel + 3, hfuel => by
    simp only [List.length_cons, List.length_append] at hfuel
    obtain ⟨token, after, htoken, hends⟩ := exists_entryEnd h rest
    rw [List.cons_append, List.cons_append, List.cons_append, List.append_assoc, htoken]
    refine blockEntries_key nodeUnless_scalar
      (nodeUnless_laidValue hvalue after handles anchors hends (by omega)) ?_
    rw [← htoken]
    exact blockEntries_laid h rest handles anchors (by omega)

end

/-- A mapping is the only node of its document. -/
theorem only_mapping (h : ∀ handles, blockEntries fuel ⟨tokens, handles, []⟩ =
      some (entries, ⟨[], handles, []⟩)) :
    only (fuel + 1) ⟨.blockMappingStart :: tokens, [], []⟩ =
      some (.mapping {} entries, ⟨[], standardHandles, []⟩) := by
  have hdocument : document (fuel + 1) ⟨.blockMappingStart :: tokens, [], []⟩ =
      some (.mapping {} entries, ⟨[], standardHandles, []⟩) :=
    node_mapping false (h standardHandles)
  exact bind_apply (f := fun node => do
    if (← get).tokens.all (· == .documentEnd) then return node else failure) hdocument

end Read

/-! ### Texts -/

theorem oneLine_written {style : Style} {written : List Char} (h : Written style text written) :
    OneLine written := by
  cases h with
  | plain h => exact oneLine_of_canBePlain h
  | quoted h =>
    have hquote : OneLine ['\x27'] := by decide
    exact oneLine_cons.mpr ⟨by decide, List.forall_mem_append.mpr ⟨oneLine_doubleQuotes h, hquote⟩⟩

mutual

/-- Every character of a value stands for itself. -/
theorem LaidValue.printable : ∀ {indent : Nat} {text : List Char} {tokens : List Token}
    {node : Node}, LaidValue indent text tokens node → ∀ c ∈ text, isPrintable c = true
  | _, _, _, _, .scalar h => by
    have hwritten := fun c hc => (oneLine_written h c hc).1
    exact List.forall_mem_cons.mpr ⟨by decide,
      List.forall_mem_append.mpr ⟨hwritten, List.forall_mem_singleton.mpr (by decide)⟩⟩
  | _, _, _, _, .missing => List.forall_mem_singleton.mpr (by decide)
  | _, _, _, _, .mapping _ _ _ h => List.forall_mem_cons.mpr ⟨by decide, h.printable⟩

/-- Every character of some entries stands for itself. -/
theorem Laid.printable : ∀ {indent : Nat} {text : List Char} {tokens : List Token}
    {entries : List (Node × Node)}, Laid indent text tokens entries →
    ∀ c ∈ text, isPrintable c = true
  | _, _, _, _, .nil => nofun
  | indent, _, _, _, .cons _ hkey hvalue h => by
    have hindent : ∀ c ∈ List.replicate indent ' ', isPrintable c = true :=
      fun c hc => List.eq_of_mem_replicate hc ▸ by decide
    have hkey' := fun c hc => isPrintable_of_isKeyChar (hkey.chars c hc)
    refine List.forall_mem_append.mpr ⟨hindent, List.forall_mem_append.mpr ⟨hkey', ?_⟩⟩
    exact List.forall_mem_cons.mpr
      ⟨by decide, List.forall_mem_append.mpr ⟨hvalue.printable, h.printable⟩⟩

end

/-- **A mapping that stands in the first column is what its text holds.** -/
theorem ofText?_of_laid (h : Laid 0 text tokens entries) (hne : entries ≠ []) :
    Node.ofText? text = some (.mapping {} entries) := by
  have hallowed : text.all isAllowed = true :=
    List.all_eq_true.mpr fun c hc => isAllowed_of_isPrintable (h.printable c hc)
  have honly : Read.only (2 * (tokens.length + 2) + 2)
      ⟨.blockMappingStart :: (tokens ++ [.blockEnd]), [], []⟩ =
        some (.mapping {} entries, ⟨[], Read.standardHandles, []⟩) :=
    Read.only_mapping fun handles => Read.blockEntries_laid h [] handles [] (by omega)
  simp [Node.ofText?, unifyBreaks_of_isPrintable h.printable, hallowed, tokens?_of_laid h hne,
    StateT.run, honly]

end ArchFacts.Yaml
