import ArchFacts.Proofs.Json.Grammar
import ArchFacts.Proofs.Json.Spelling

/-!
# What is read is a writing

The other direction of the grammar: a text that is read to its end without a fault is a text of the
shape that was read (`writing_of_ofText`). The text is cut at its tokens first (`Lexed`), where space
stands behind the token that it follows. The tokens are those of the shape, so what is cut is then put
together along the shape.
-/

namespace ArchFacts.Json

open Reading

/-! ### The texts of tokens -/

/-- The texts of a token. -/
inductive TokenWriting : List Char → Token → Prop where
  | scalar {text : List Char} {token : Token} (h : ScalarWriting text token) : TokenWriting text token
  | openArray : TokenWriting ['['] .openArray
  | closeArray : TokenWriting [']'] .closeArray
  | openObject : TokenWriting ['\x7b'] .openObject
  | closeObject : TokenWriting ['\x7d'] .closeObject
  | comma : TokenWriting [','] .comma
  | colon : TokenWriting [':'] .colon

/-- A text that is cut into its tokens, each with the space behind it. -/
inductive Lexed : List Char → List Token → Prop where
  | nil : Lexed [] []
  | cons {text back after : List Char} {token : Token} {ts : List Token}
      (first : TokenWriting text token) (hback : IsBlank back) (rest : Lexed after ts) :
      Lexed (text ++ (back ++ after)) (token :: ts)

/-- A token without a fault. -/
def Token.Whole : Token → Prop
  | .bad _ | .cutNumber => False
  | .string s => s.cut = none
  | _ => True

variable {text : List Char} {done : List Piece} {token : Token}

section

variable {ts : List Token} {f : Fault}

theorem not_whole_bad : ¬∀ t ∈ Token.bad f :: ts, t.Whole := fun h => h _ List.mem_cons_self

theorem not_whole_cutNumber : ¬∀ t ∈ Token.cutNumber :: ts, t.Whole := fun h =>
  h _ List.mem_cons_self

theorem not_whole_cutString : ¬∀ t ∈ cutString done f :: ts, t.Whole := fun h =>
  Option.some_ne_none f (h _ List.mem_cons_self)

end

/-! ### Strings -/

theorem not_whole_numbered {bytes : Nat} :
    ¬∀ t ∈ (Reading.numbered done bytes none).tokens text, t.Whole := by
  induction text generalizing bytes with
  | nil => exact not_whole_cutString
  | cons c text ih =>
    intro h
    rw [tokens_cons, step, stepNumbered] at h
    split at h
    case isTrue => exact ih h
    case isFalse => exact absurd h not_whole_cutString

/-- A character by its number has only hexadecimal digits. -/
theorem exists_hexDigit {bytes code : Nat}
    (h : ∀ t ∈ (Reading.numbered done bytes (some code)).tokens text, t.Whole) :
    ∃ c rest d, text = c :: rest ∧ hexDigit? c = some d := by
  cases text with
  | nil => exact absurd h not_whole_cutString
  | cons c rest =>
    cases hdigit : hexDigit? c with
    | some d => exact ⟨c, rest, d, rfl, hdigit⟩
    | none =>
      rw [tokens_cons, step, stepNumbered] at h
      simp only [hdigit] at h
      split at h
      case isTrue => exact (not_whole_numbered h).elim
      case isFalse => exact absurd h not_whole_cutString

/-- Behind a backslash and a `u` stand four of them. -/
theorem exists_fourDigits (h : ∀ t ∈ (Reading.numbered done 0 (some 0)).tokens text, t.Whole) :
    ∃ c₁ c₂ c₃ c₄ d₁ d₂ d₃ d₄ rest, text = c₁ :: c₂ :: c₃ :: c₄ :: rest ∧
      hexDigit? c₁ = some d₁ ∧ hexDigit? c₂ = some d₂ ∧ hexDigit? c₃ = some d₃ ∧
      hexDigit? c₄ = some d₄ ∧ ∀ t ∈
        (Reading.string (.unit (16 * (16 * (16 * d₁ + d₂) + d₃) + d₄) :: done)).tokens rest, t.Whole := by
  obtain ⟨c₁, text, d₁, rfl, h₁⟩ := exists_hexDigit h
  rw [tokens_hexDigit h₁ (by decide)] at h
  obtain ⟨c₂, text, d₂, rfl, h₂⟩ := exists_hexDigit h
  rw [tokens_hexDigit h₂ (by decide)] at h
  obtain ⟨c₃, text, d₃, rfl, h₃⟩ := exists_hexDigit h
  rw [tokens_hexDigit h₃ (by decide)] at h
  obtain ⟨c₄, text, d₄, rfl, h₄⟩ := exists_hexDigit h
  rw [tokens_lastHexDigit h₄] at h
  simp only [Nat.mul_zero, Nat.zero_add] at h
  exact ⟨c₁, c₂, c₃, c₄, d₁, d₂, d₃, d₄, text, rfl, h₁, h₂, h₃, h₄, h⟩

/-- A string that is read to its end is pieces and a quote behind them. -/
theorem exists_pieces (h : ∀ t ∈ (Reading.string done).tokens text, t.Whole) :
    ∃ body pieces rest, text = body ++ '"' :: rest ∧ PieceWriting body pieces := by
  induction hlength : text.length using Nat.strongRecOn generalizing text done with
  | ind n ih =>
    subst hlength
    cases text with
    | nil => exact absurd h not_whole_cutString
    | cons c text =>
      by_cases hquote : c = '"'
      case pos => exact ⟨[], [], text, by rw [hquote]; rfl, .nil⟩
      by_cases hbackslash : c = '\\'
      case neg =>
        rw [tokens_cons, step_string hquote hbackslash] at h
        split at h
        case isTrue => exact absurd h not_whole_cutString
        case isFalse hcontrol =>
          obtain ⟨body, pieces, rest, rfl, hbody⟩ := ih _ (Nat.lt_succ_self _) h rfl
          exact ⟨c :: body, _, rest, rfl, .plain (Nat.le_of_not_lt hcontrol) hquote hbackslash hbody⟩
      case pos =>
        subst hbackslash
        cases text with
        | nil => exact absurd h not_whole_cutString
        | cons letter text =>
          by_cases hu : letter = 'u'
          case pos =>
            subst hu
            obtain ⟨c₁, c₂, c₃, c₄, d₁, d₂, d₃, d₄, text, rfl, h₁, h₂, h₃, h₄, hmore⟩ :=
              exists_fourDigits h
            obtain ⟨body, pieces, rest, rfl, hbody⟩ :=
              ih _ (by simp only [List.length_cons]; omega) hmore rfl
            exact ⟨_, _, rest, rfl, .numbered h₁ h₂ h₃ h₄ hbody⟩
          case neg =>
            have hmore : ∀ t ∈ (Reading.escaped done).tokens (letter :: text), t.Whole := h
            rw [tokens_cons] at hmore
            cases hletter : unescape? letter with
            | none =>
              have hstep : (Reading.escaped done).step letter =
                  (.stopped, [cutString done .malformed]) := by
                rw [step]
                · rw [hletter]
                · exact hu
              rw [hstep] at hmore
              exact absurd hmore not_whole_cutString
            | some c =>
              rw [step_escaped hletter] at hmore
              obtain ⟨body, pieces, rest, rfl, hbody⟩ :=
                ih _ (by simp only [List.length_cons]; omega) hmore rfl
              exact ⟨_, _, rest, rfl, .escaped hletter hbody⟩

/-! ### Numbers and words -/

theorem isComplete_of_step {n : Numeral} {c : Char} (h : n.step c = .complete) :
    n.isComplete = true := by
  cases hplace : n.place with
  | zero | whole | fraction | exponent => rw [Numeral.isComplete, hplace]
  | minus | point | mark | markSign =>
    unfold Numeral.step at h
    rw [hplace] at h
    grind

/-- A number that is read to its end. -/
theorem exists_through {n : Numeral} (h : ∀ t ∈ (Reading.number n).tokens text, t.Whole) :
    ∃ front rest n', text = front ++ rest ∧ n.Through front n' ∧ n'.isComplete = true ∧
      (Reading.number n).tokens text = n'.token :: tokens rest := by
  induction text generalizing n with
  | nil =>
    by_cases hcomplete : n.isComplete = true
    case pos => exact ⟨[], [], n, rfl, .here n, hcomplete, if_pos hcomplete⟩
    case neg =>
      have hfinish : (Reading.number n).tokens [] = [.cutNumber] := if_neg hcomplete
      rw [hfinish] at h
      exact absurd h not_whole_cutNumber
  | cons c text ih =>
    rw [tokens_cons, step] at h ⊢
    cases hstep : n.step c with
    | more next =>
      rw [hstep] at h
      obtain ⟨front, rest, n', rfl, hthrough, hcomplete, htokens⟩ := ih h
      exact ⟨c :: front, rest, n', rfl, .next hstep hthrough, hcomplete, htokens⟩
    | complete => exact ⟨[], c :: text, n, rfl, .here n, isComplete_of_step hstep, rfl⟩
    | broken =>
      rw [hstep] at h
      exact absurd h not_whole_bad

/-- A number in a text is one by its token. -/
theorem NumberText.scalar (n : NumberText) : ScalarWriting n.text n.numeral.token := by
  cases hvalue : n.value with
  | none =>
    rw [n.token_of_tooLarge hvalue]
    exact .tooLarge n hvalue
  | some number =>
    rw [n.token_of_value hvalue]
    cases number with
    | float x => exact .double n hvalue
    | int k =>
      obtain ⟨hlow, hhigh⟩ := Numeral.proper_value hvalue
      rw [n.text_of_value hvalue]
      exact .int hlow hhigh

/-- A word that is read to its end. -/
theorem exists_word {letters : List Char} (hletters : letters ≠ [])
    (h : ∀ t ∈ (Reading.word letters token).tokens text, t.Whole) :
    ∃ rest, text = letters ++ rest ∧
      (Reading.word letters token).tokens text = token :: tokens rest := by
  induction letters generalizing text with
  | nil => exact absurd rfl hletters
  | cons letter letters ih =>
    cases text with
    | nil => exact absurd h not_whole_bad
    | cons c text =>
      rw [tokens_cons, step] at h ⊢
      by_cases hc : c = letter
      case neg =>
        rw [if_neg hc] at h
        exact absurd h not_whole_bad
      case pos =>
        subst hc
        rw [if_pos rfl] at h ⊢
        by_cases hlast : letters = []
        case pos =>
          subst hlast
          exact ⟨text, rfl, rfl⟩
        case neg =>
          rw [if_neg hlast] at h ⊢
          obtain ⟨rest, rfl, htokens⟩ := ih hlast h
          exact ⟨rest, rfl, htokens⟩

/-! ### The tokens of a text -/

/-- What is no space is the beginning of a token. -/
theorem exists_token {c : Char} (hc : ¬isSpace c = true) (h : ∀ t ∈ tokens (c :: text), t.Whole) :
    ∃ front token rest, text = front ++ rest ∧ TokenWriting (c :: front) token ∧
      tokens (c :: text) = token :: tokens rest := by
  have htokens : tokens (c :: text) = (begin c).2 ++ (begin c).1.tokens text := rfl
  have hword {letters : List Char} {token : Token} (hletters : letters ≠ [])
      (hwriting : ScalarWriting (c :: letters) token)
      (hbegin : begin c = (.word letters token, [])) : ∃ front token rest, text = front ++ rest ∧
        TokenWriting (c :: front) token ∧ tokens (c :: text) = token :: tokens rest := by
    rw [htokens, hbegin] at h ⊢
    obtain ⟨rest, rfl, hrest⟩ := exists_word hletters h
    exact ⟨letters, token, rest, rfl, .scalar hwriting, hrest⟩
  unfold begin at htokens
  rw [if_neg hc] at htokens
  split at htokens
  case h_1 => exact ⟨[], _, text, rfl, .openArray, htokens⟩
  case h_2 => exact ⟨[], _, text, rfl, .closeArray, htokens⟩
  case h_3 => exact ⟨[], _, text, rfl, .openObject, htokens⟩
  case h_4 => exact ⟨[], _, text, rfl, .closeObject, htokens⟩
  case h_5 => exact ⟨[], _, text, rfl, .comma, htokens⟩
  case h_6 => exact ⟨[], _, text, rfl, .colon, htokens⟩
  case h_7 =>
    obtain ⟨body, pieces, rest, rfl, hbody⟩ := exists_pieces h
    refine ⟨body ++ ['"'], .string ⟨pieces, none⟩, rest, by simp, .scalar (.string hbody), ?_⟩
    exact hbody.tokens_string [] rest
  case h_8 => exact hword (List.cons_ne_nil _ _) .null rfl
  case h_9 => exact hword (List.cons_ne_nil _ _) .true rfl
  case h_10 => exact hword (List.cons_ne_nil _ _) .false rfl
  case h_11 =>
    obtain ⟨front, rest, n', rfl, hthrough, hcomplete, hrest⟩ := exists_through h
    obtain ⟨n, hsign, rfl, rfl⟩ := exists_numberText hthrough hcomplete
    have htext : n.text = '-' :: n.unsigned := if_pos hsign
    exact ⟨n.unsigned, _, rest, rfl, .scalar (htext ▸ n.scalar), hrest⟩
  case h_12 =>
    rw [htokens] at h
    split at h
    case h_2 => exact absurd h not_whole_bad
    case h_1 next hstep =>
      obtain ⟨front, rest, n', rfl, hthrough, hcomplete, hrest⟩ := exists_through h
      obtain ⟨n, hsign, hunsigned, rfl⟩ := exists_numberText (.next hstep hthrough) hcomplete
      have htext : n.text = c :: front := (if_neg (by simp [hsign])).trans hunsigned
      rw [hstep] at htokens
      exact ⟨front, _, rest, rfl, .scalar (htext ▸ n.scalar), htokens.trans hrest⟩

/-- A text without a fault is cut into its tokens, behind the space that it begins with. -/
theorem exists_lexed (h : ∀ t ∈ tokens text, t.Whole) :
    ∃ front after, text = front ++ after ∧ IsBlank front ∧ Lexed after (tokens text) := by
  induction hlength : text.length using Nat.strongRecOn generalizing text with
  | ind n ih =>
    subst hlength
    cases text with
    | nil => exact ⟨[], [], rfl, List.forall_mem_nil _, .nil⟩
    | cons c text =>
      by_cases hc : isSpace c = true
      case pos =>
        have hblank : IsBlank [c] := List.forall_mem_singleton.mpr hc
        have hskip := tokens_blank hblank text
        rw [List.singleton_append] at hskip
        rw [hskip] at h ⊢
        obtain ⟨front, after, rfl, hfront, hlexed⟩ := ih _ (Nat.lt_succ_self _) h rfl
        exact ⟨c :: front, after, rfl, List.forall_mem_cons.mpr ⟨hc, hfront⟩, hlexed⟩
      case neg =>
        obtain ⟨front, token, rest, rfl, hfirst, htokens⟩ := exists_token hc h
        rw [htokens] at h ⊢
        obtain ⟨back, after, rfl, hback, hlexed⟩ :=
          ih rest.length (by simp only [List.length_cons, List.length_append]; omega)
            (List.forall_mem_cons.mp h).2 rfl
        exact ⟨[], _, rfl, List.forall_mem_nil _, .cons hfirst hback hlexed⟩

/-! ### The shape of a text -/

/-- The character of a token that is no value. -/
def Token.mark? : Token → Option Char
  | .openArray => some '['
  | .closeArray => some ']'
  | .openObject => some '\x7b'
  | .closeObject => some '\x7d'
  | .comma => some ','
  | .colon => some ':'
  | _ => none

section

variable {c : Char} {node : Node} {ts : List Token}

theorem Lexed.mark (hmark : token.mark? = some c) (h : Lexed text (token :: ts)) :
    ∃ back after, text = c :: (back ++ after) ∧ IsBlank back ∧ Lexed after ts := by
  cases h with
  | @cons text back after _ _ first hback rest =>
    suffices text = [c] from ⟨back, after, by rw [this]; rfl, hback, rest⟩
    cases first with
    | scalar h => cases h <;> cases hmark
    | _ => cases hmark; rfl

theorem Lexed.scalar (hscalar : Node.isScalar token = true) (h : Lexed text (token :: ts)) :
    ∃ front back after, text = front ++ (back ++ after) ∧ ScalarWriting front token ∧
      IsBlank back ∧ Lexed after ts := by
  cases h with
  | @cons text back after _ _ first hback rest =>
    cases first with
    | scalar h => exact ⟨text, back, after, rfl, h, hback, rest⟩
    | _ => cases hscalar

theorem Writing.behind {space text : List Char} (h : Writing text node) (hspace : IsBlank space) :
    Writing (space ++ text) node := by
  have hspaced := h.spaced hspace (List.forall_mem_nil _)
  rwa [List.append_nil] at hspaced

theorem Writing.before {space text : List Char} (h : Writing text node) (hspace : IsBlank space) :
    Writing (text ++ space) node := h.spaced (List.forall_mem_nil _) hspace

/-- The key of a member, and the colon behind it. -/
theorem Lexed.key {key : Quoted} (hcut : key.cut = none)
    (h : Lexed text (.string key :: .colon :: ts)) :
    ∃ name pieces behind before after,
      text = '"' :: (name ++ '"' :: (behind ++ ':' :: (before ++ after))) ∧ key = ⟨pieces, none⟩ ∧
      PieceWriting name pieces ∧ IsBlank behind ∧ IsBlank before ∧ Lexed after ts := by
  obtain ⟨front, behind, _, rfl, hfront, hbehind, hrest⟩ :=
    h.scalar (by rw [Node.isScalar, hcut]; rfl)
  obtain ⟨before, after, rfl, hbefore, hrest⟩ := hrest.mark rfl
  cases hfront with
  | @string name pieces hname =>
    exact ⟨name, pieces, behind, before, after, by simp, rfl, hname, hbehind, hbefore, hrest⟩

theorem exists_scalarWriting (hscalar : Node.isScalar token = true) (h : Lexed text (token :: ts)) :
    ∃ front after, text = front ++ after ∧ Writing front (Node.ofToken token) ∧ Lexed after ts := by
  obtain ⟨front, back, after, rfl, hfront, hback, hrest⟩ := h.scalar hscalar
  exact ⟨front ++ back, after, (List.append_assoc ..).symm, (Writing.scalar hfront).before hback,
    hrest⟩

end

mutual

/-- A text that begins with the tokens of a node begins with a text of the node. -/
theorem exists_writing : ∀ (node : Node) {text : List Char} {ts : List Token},
    Lexed text (node.spelling ++ ts) → node.skip = .ok () →
    ∃ front after, text = front ++ after ∧ Writing front node ∧ Lexed after ts
  | .null, _, _, h, _ => exists_scalarWriting rfl h
  | .bool _, _, _, h, _ => exists_scalarWriting rfl h
  | .number _, _, _, h, _ => exists_scalarWriting rfl h
  | .tooLarge, _, _, h, _ => exists_scalarWriting rfl h
  | .string s, _, _, h, hskip =>
    exists_scalarWriting (by rw [Node.isScalar, Node.checkEnd_eq_ok.mp hskip]; rfl) h
  | .cutNumber, _, _, _, hskip => nomatch hskip
  | .broken _, _, _, _, hskip => nomatch hskip
  | .array [] cut, _, _, h, hskip => by
    obtain ⟨-, rfl⟩ := Node.skip_array.mp hskip
    rw [Node.spelling, List.cons_append] at h
    obtain ⟨space, _, rfl, hspace, h⟩ := h.mark rfl
    obtain ⟨back, after, rfl, hback, h⟩ := h.mark rfl
    refine ⟨'[' :: (space ++ (commaSeparated [] ++ [']'])) ++ back, after, ?_,
      (Writing.array hspace .nil).before hback, h⟩
    simp [commaSeparated]
  | .array (node :: nodes) cut, _, ts, h, hskip => by
    obtain ⟨hnodes, rfl⟩ := Node.skip_array.mp hskip
    obtain ⟨hnode, hnodes⟩ := List.forall_mem_cons.mp hnodes
    rw [Node.spelling, List.cons_append] at h
    obtain ⟨space, _, rfl, hspace, h⟩ := h.mark rfl
    rw [Node.spellingItems, commaTokens, List.append_assoc, List.append_assoc] at h
    obtain ⟨text, _, rfl, hfirst, h⟩ := exists_writing node h hnode
    obtain ⟨texts, _, rfl, hrest, h⟩ := exists_itemWritings nodes h hnodes
    obtain ⟨back, after, rfl, hback, h⟩ := h.mark rfl
    refine ⟨'[' :: (space ++ (commaSeparated (text :: texts) ++ [']'])) ++ back, after, ?_,
      (Writing.array hspace (.cons hfirst hrest)).before hback, h⟩
    simp [commaSeparated_cons]
  | .object [] cut, _, _, h, hskip => by
    obtain ⟨-, rfl⟩ := Node.skip_object.mp hskip
    rw [Node.spelling, List.cons_append] at h
    obtain ⟨space, _, rfl, hspace, h⟩ := h.mark rfl
    obtain ⟨back, after, rfl, hback, h⟩ := h.mark rfl
    refine ⟨'\x7b' :: (space ++ (commaSeparated [] ++ ['\x7d'])) ++ back, after, ?_,
      (Writing.object hspace .nil).before hback, h⟩
    simp [commaSeparated]
  | .object ((key, node) :: members) cut, _, _, h, hskip => by
    obtain ⟨hmembers, rfl⟩ := Node.skip_object.mp hskip
    obtain ⟨⟨hcut, hnode⟩, hothers⟩ := List.forall_mem_cons.mp hmembers
    rw [Node.spelling, List.cons_append] at h
    obtain ⟨space, _, rfl, hspace, h⟩ := h.mark rfl
    rw [Node.spellingMembers, commaTokens, List.append_assoc, List.append_assoc] at h
    obtain ⟨name, pieces, behind, before, _, rfl, rfl, hname, hbehind, hbefore, h⟩ := h.key hcut
    obtain ⟨text, _, rfl, hvalue, h⟩ := exists_writing node h hnode
    obtain ⟨texts, _, rfl, hrest, h⟩ := exists_memberWritings members h hothers
    obtain ⟨back, after, rfl, hback, h⟩ := h.mark rfl
    have hwritings := MemberWritings.cons (List.forall_mem_nil _) hbehind hname
      (hvalue.behind hbefore) hrest
    refine ⟨_, after, ?_, (Writing.object hspace hwritings).before hback, h⟩
    simp [commaSeparated_cons]

/-- The texts of the items behind the first one of an array. -/
theorem exists_itemWritings : ∀ (nodes : List Node) {text : List Char} {ts : List Token},
    Lexed text ((Node.spellingItems nodes).flatMap (.comma :: ·) ++ ts) →
    (∀ node ∈ nodes, node.skip = .ok ()) →
    ∃ texts after, text = texts.flatMap (',' :: ·) ++ after ∧ ItemWritings texts nodes ∧
      Lexed after ts
  | [], text, _, h, _ => ⟨[], text, rfl, .nil, h⟩
  | node :: nodes, _, _, h, hskip => by
    obtain ⟨hnode, hnodes⟩ := List.forall_mem_cons.mp hskip
    rw [Node.spellingItems, List.flatMap_cons, List.append_assoc] at h
    obtain ⟨space, _, rfl, hspace, h⟩ := h.mark rfl
    obtain ⟨text, _, rfl, hfirst, h⟩ := exists_writing node h hnode
    obtain ⟨texts, after, rfl, hrest, h⟩ := exists_itemWritings nodes h hnodes
    exact ⟨(space ++ text) :: texts, after, by simp, .cons (hfirst.behind hspace) hrest, h⟩

/-- The texts of the members behind the first one of an object. -/
theorem exists_memberWritings : ∀ (members : List (Quoted × Node)) {text : List Char}
    {ts : List Token}, Lexed text ((Node.spellingMembers members).flatMap (.comma :: ·) ++ ts) →
    (∀ member ∈ members, member.1.cut = none ∧ member.2.skip = .ok ()) →
    ∃ texts after, text = texts.flatMap (',' :: ·) ++ after ∧ MemberWritings texts members ∧
      Lexed after ts
  | [], text, _, h, _ => ⟨[], text, rfl, .nil, h⟩
  | (key, node) :: members, _, _, h, hskip => by
    obtain ⟨⟨hcut, hnode⟩, hothers⟩ := List.forall_mem_cons.mp hskip
    rw [Node.spellingMembers, List.flatMap_cons, List.append_assoc] at h
    obtain ⟨space, _, rfl, hspace, h⟩ := h.mark rfl
    obtain ⟨name, pieces, behind, before, _, rfl, rfl, hname, hbehind, hbefore, h⟩ := h.key hcut
    obtain ⟨text, _, rfl, hvalue, h⟩ := exists_writing node h hnode
    obtain ⟨texts, after, rfl, hrest, h⟩ := exists_memberWritings members h hothers
    exact ⟨_, after, by simp, .cons hspace hbehind hname (hvalue.behind hbefore) hrest, h⟩

end

theorem whole_commaTokens {tss : List (List Token)} (h : ∀ ts ∈ tss, ∀ t ∈ ts, t.Whole) :
    ∀ t ∈ commaTokens tss, t.Whole := by
  cases tss with
  | nil => exact List.forall_mem_nil _
  | cons first tss =>
    obtain ⟨hfirst, hothers⟩ := List.forall_mem_cons.mp h
    refine List.forall_mem_append.mpr ⟨hfirst, fun t ht => ?_⟩
    obtain ⟨ts, hts, ht⟩ := List.mem_flatMap.mp ht
    exact List.forall_mem_cons.mpr ⟨trivial, hothers ts hts⟩ t ht

/-- Tokens between two marks. -/
theorem whole_enclosed {first last : Token} {ts : List Token} (hfirst : first.Whole)
    (h : ∀ t ∈ ts, t.Whole) (hlast : last.Whole) : ∀ t ∈ first :: (ts ++ [last]), t.Whole :=
  List.forall_mem_cons.mpr
    ⟨hfirst, List.forall_mem_append.mpr ⟨h, List.forall_mem_singleton.mpr hlast⟩⟩

mutual

/-- The tokens of a node without a fault have none. -/
theorem whole_spelling : ∀ node : Node, node.skip = .ok () → ∀ t ∈ node.spelling, t.Whole
  | .null, _ | .bool _, _ | .number _, _ | .tooLarge, _ => List.forall_mem_singleton.mpr trivial
  | .string _, hskip => List.forall_mem_singleton.mpr (Node.checkEnd_eq_ok.mp hskip)
  | .cutNumber, hskip => nomatch hskip
  | .broken _, hskip => nomatch hskip
  | .array items _, hskip => whole_enclosed trivial
      (whole_commaTokens (whole_spellingItems items (Node.skip_array.mp hskip).1)) trivial
  | .object members _, hskip => whole_enclosed trivial
      (whole_commaTokens (whole_spellingMembers members (Node.skip_object.mp hskip).1)) trivial

/-- `whole_spelling`, item by item. -/
theorem whole_spellingItems : ∀ items : List Node, (∀ node ∈ items, node.skip = .ok ()) →
    ∀ ts ∈ Node.spellingItems items, ∀ t ∈ ts, t.Whole
  | [], _ => List.forall_mem_nil _
  | node :: items, hskip => List.forall_mem_cons.mpr
    ⟨whole_spelling node (List.forall_mem_cons.mp hskip).1,
      whole_spellingItems items (List.forall_mem_cons.mp hskip).2⟩

/-- `whole_spelling`, member by member. -/
theorem whole_spellingMembers : ∀ members : List (Quoted × Node),
    (∀ member ∈ members, member.1.cut = none ∧ member.2.skip = .ok ()) →
    ∀ ts ∈ Node.spellingMembers members, ∀ t ∈ ts, t.Whole
  | [], _ => List.forall_mem_nil _
  | (_, node) :: members, hskip => by
    obtain ⟨⟨hkey, hnode⟩, hothers⟩ := List.forall_mem_cons.mp hskip
    refine List.forall_mem_cons.mpr ⟨?_, whole_spellingMembers members hothers⟩
    exact List.forall_mem_cons.mpr ⟨hkey, List.forall_mem_cons.mpr ⟨trivial, whole_spelling node hnode⟩⟩

end

mutual

/-- What is written has no fault. -/
theorem Writing.skip : ∀ {text : List Char} {node : Node}, Writing text node → node.skip = .ok ()
  | _, _, .scalar h => by cases h <;> rfl
  | _, _, .array _ h => Node.skip_array.mpr ⟨h.skip, rfl⟩
  | _, _, .object _ h => Node.skip_object.mpr ⟨h.skip, rfl⟩
  | _, _, .spaced _ _ h => h.skip

/-- `Writing.skip`, item by item. -/
theorem ItemWritings.skip : ∀ {texts : List (List Char)} {nodes : List Node},
    ItemWritings texts nodes → ∀ node ∈ nodes, node.skip = .ok ()
  | _, _, .nil => List.forall_mem_nil _
  | _, _, .cons first rest => List.forall_mem_cons.mpr ⟨first.skip, rest.skip⟩

/-- `Writing.skip`, member by member. -/
theorem MemberWritings.skip : ∀ {texts : List (List Char)} {members : List (Quoted × Node)},
    MemberWritings texts members →
    ∀ member ∈ members, member.1.cut = none ∧ member.2.skip = .ok ()
  | _, _, .nil => List.forall_mem_nil _
  | _, _, .cons _ _ _ hvalue rest => List.forall_mem_cons.mpr ⟨⟨rfl, hvalue.skip⟩, rest.skip⟩

end

/-- **Every text that is read** to its end without a fault is one that the grammar knows. -/
theorem writing_of_ofText {text : List Char} {node : Node} (hread : Node.ofText text = (node, []))
    (hskip : node.skip = .ok ()) : Writing text node := by
  have htokens := Node.tokens_of_ofText hread hskip
  have hwhole : ∀ t ∈ tokens text, t.Whole := htokens ▸ whole_spelling node hskip
  obtain ⟨front, _, rfl, hfront, hlexed⟩ := exists_lexed hwhole
  rw [htokens, ← List.append_nil node.spelling] at hlexed
  obtain ⟨text, after, rfl, hwriting, hlexed⟩ := exists_writing node hlexed hskip
  cases hlexed
  rw [List.append_nil]
  exact hwriting.behind hfront

/-- **Reading a text** with a decoder that finds every fault in a shape: the text is one of a shape
that is decoded. -/
theorem readWhole_eq_ok_iff {α ε : Type} {ofFault : Fault → ε} {decode : Node → Except ε α}
    {Stands : Node → α → Prop}
    (hdecode : ∀ node a, decode node = .ok a ↔ node.skip = .ok () ∧ Stands node a)
    {text : List Char} {a : α} :
    readWhole ofFault decode text = .ok a ↔ ∃ node, Writing text node ∧ Stands node a := by
  constructor
  · intro h
    obtain ⟨b, hb, hrest⟩ := bind_eq_ok.mp h
    split at hrest
    case isFalse => cases hrest
    case isTrue hempty =>
      obtain rfl := Except.ok.inj hrest
      obtain ⟨hskip, hstands⟩ := (hdecode _ _).mp hb
      have hread : Node.ofText text = ((Node.ofText text).1, []) :=
        Prod.ext rfl (List.isEmpty_iff.mp hempty)
      exact ⟨_, writing_of_ofText hread hskip, hstands⟩
  · rintro ⟨node, hwriting, hstands⟩
    rw [readWhole_of_spells ofFault decode hwriting.spells]
    exact (hdecode node a).mpr ⟨hwriting.skip, hstands⟩

end ArchFacts.Json
