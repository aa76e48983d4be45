import ArchFacts.Proofs.Json.Numerals
import ArchFacts.Proofs.Json.Shapes

/-!
# Every way of writing a value

What a JSON text may look like, given by what it is a text of (`Writing`): strings with any of their
escapes, numbers of any form, arrays and objects with space between their parts. The shape keeps the
order of members and repeated names, so that all that is free in a text of a shape is space, and how
a character stands in a string.

A text of a shape spells it, whatever stands around it (`Writing.spells`). So a text has one shape at
most, and a reader of whole texts decodes this one.
-/

namespace ArchFacts.Json

open Reading

/-- A text that is nothing but space. -/
def IsBlank (text : List Char) : Prop := ∀ c ∈ text, isSpace c = true

/-- What stands between the quotes of a string, and the pieces that it is read as. -/
inductive PieceWriting : List Char → List Piece → Prop where
  | nil : PieceWriting [] []
  | plain {c : Char} {text : List Char} {pieces : List Piece} (hcontrol : 0x20 ≤ c.toNat)
      (hquote : c ≠ '"') (hbackslash : c ≠ '\\') (rest : PieceWriting text pieces) :
      PieceWriting (c :: text) (.char c :: pieces)
  | escaped {letter c : Char} {text : List Char} {pieces : List Piece}
      (hletter : unescape? letter = some c) (rest : PieceWriting text pieces) :
      PieceWriting ('\\' :: letter :: text) (.char c :: pieces)
  /-- Four hexadecimal digits. -/
  | numbered {c₁ c₂ c₃ c₄ : Char} {d₁ d₂ d₃ d₄ : Nat} {text : List Char} {pieces : List Piece}
      (h₁ : hexDigit? c₁ = some d₁) (h₂ : hexDigit? c₂ = some d₂) (h₃ : hexDigit? c₃ = some d₃)
      (h₄ : hexDigit? c₄ = some d₄) (rest : PieceWriting text pieces) :
      PieceWriting ('\\' :: 'u' :: c₁ :: c₂ :: c₃ :: c₄ :: text)
        (.unit (16 * (16 * (16 * d₁ + d₂) + d₃) + d₄) :: pieces)

/-- The texts of the tokens that are values by themselves. -/
inductive ScalarWriting : List Char → Token → Prop where
  | null : ScalarWriting ['n', 'u', 'l', 'l'] .null
  | true : ScalarWriting ['t', 'r', 'u', 'e'] (.bool true)
  | false : ScalarWriting ['f', 'a', 'l', 's', 'e'] (.bool false)
  | string {text : List Char} {pieces : List Piece} (h : PieceWriting text pieces) :
      ScalarWriting ('"' :: (text ++ ['"'])) (.string ⟨pieces, none⟩)
  /-- An integer of at most 64 bits. -/
  | int {n : Int} (hlow : -UInt64.size ≤ 2 * n) (hhigh : n < UInt64.size) :
      ScalarWriting (intText n) (.number (.int n))
  | double (n : NumberText) {x : Decimal.Binary64} (h : n.value = some (.float x)) :
      ScalarWriting n.text (.number (.float x))
  | tooLarge (n : NumberText) (h : n.value = none) : ScalarWriting n.text .tooLarge

mutual

/-- The texts of a value. -/
inductive Writing : List Char → Node → Prop where
  | scalar {text : List Char} {token : Token} (h : ScalarWriting text token) :
      Writing text (Node.ofToken token)
  | array {space : List Char} {texts : List (List Char)} {nodes : List Node}
      (hspace : IsBlank space) (h : ItemWritings texts nodes) :
      Writing ('[' :: (space ++ (commaSeparated texts ++ [']']))) (.array nodes none)
  | object {space : List Char} {texts : List (List Char)} {members : List (Quoted × Node)}
      (hspace : IsBlank space) (h : MemberWritings texts members) :
      Writing ('\x7b' :: (space ++ (commaSeparated texts ++ ['\x7d']))) (.object members none)
  | spaced {front text back : List Char} {node : Node} (hfront : IsBlank front) (hback : IsBlank back)
      (h : Writing text node) : Writing (front ++ (text ++ back)) node

/-- The texts of the items of an array. -/
inductive ItemWritings : List (List Char) → List Node → Prop where
  | nil : ItemWritings [] []
  | cons {text : List Char} {node : Node} {texts : List (List Char)} {nodes : List Node}
      (first : Writing text node) (rest : ItemWritings texts nodes) :
      ItemWritings (text :: texts) (node :: nodes)

/-- The texts of the members of an object. -/
inductive MemberWritings : List (List Char) → List (Quoted × Node) → Prop where
  | nil : MemberWritings [] []
  | cons {front key back text : List Char} {pieces : List Piece} {node : Node}
      {texts : List (List Char)} {members : List (Quoted × Node)} (hfront : IsBlank front)
      (hback : IsBlank back) (hkey : PieceWriting key pieces) (hvalue : Writing text node)
      (rest : MemberWritings texts members) :
      MemberWritings ((front ++ '"' :: (key ++ '"' :: (back ++ ':' :: text))) :: texts)
        ((⟨pieces, none⟩, node) :: members)

end

/-! ### Space -/

theorem tokens_blank {space : List Char} (h : IsBlank space) (rest : List Char) :
    tokens (space ++ rest) = tokens rest := by
  induction space with
  | nil => rfl
  | cons c space ih =>
    obtain ⟨hc, hspace⟩ := List.forall_mem_cons.mp h
    have hbegin : begin c = (.between, []) := if_pos hc
    rw [List.cons_append, tokens, tokens_cons, step, hbegin]
    exact ih hspace

theorem ended_blank {space rest : List Char} (h : IsBlank space) (hrest : Ended rest) :
    Ended (space ++ rest) := by
  cases space with
  | nil => exact hrest
  | cons c space =>
    have hc : isSpace c = true := h c List.mem_cons_self
    exact ended_cons (by simp [endsValue, hc]) _

/-! ### Scalars -/

theorem tokens_hexDigit {c : Char} {d bytes : Nat} (h : hexDigit? c = some d) (hbytes : bytes + 1 < 4)
    (done : List Piece) (code : Nat) (rest : List Char) :
    (Reading.numbered done bytes (some code)).tokens (c :: rest) =
      (Reading.numbered done (bytes + 1) (some (16 * code + d))).tokens rest := by
  rw [tokens_cons, step, stepNumbered_of_hexDigit? h, if_pos hbytes]
  rfl

theorem tokens_lastHexDigit {c : Char} {d : Nat} (h : hexDigit? c = some d) (done : List Piece)
    (code : Nat) (rest : List Char) :
    (Reading.numbered done 3 (some code)).tokens (c :: rest) =
      (Reading.string (.unit (16 * code + d) :: done)).tokens rest := by
  rw [tokens_cons, step, stepNumbered_of_hexDigit? h, if_neg (by decide)]
  rfl

theorem unescape?_ne_u {letter c : Char} (h : unescape? letter = some c) : letter ≠ 'u' := by
  rintro rfl
  cases h

/-- A character that stands for itself in a string, or cannot stand in one. -/
theorem step_string {c : Char} (hquote : c ≠ '"') (hbackslash : c ≠ '\\') (done : List Piece) :
    (Reading.string done).step c =
      if c.toNat < 0x20 then (.stopped, [cutString done .malformed])
      else (.string (.char c :: done), []) := by
  rw [step]
  · exact hquote
  · exact hbackslash

theorem step_escaped {letter c : Char} (h : unescape? letter = some c) (done : List Piece) :
    (Reading.escaped done).step letter = (.string (.char c :: done), []) := by
  rw [step]
  · rw [h]
  · exact unescape?_ne_u h

/-- Pieces are read to the quote behind them. -/
theorem PieceWriting.tokens_string {text : List Char} {pieces : List Piece}
    (h : PieceWriting text pieces) (done : List Piece) (rest : List Char) :
    (Reading.string done).tokens (text ++ '"' :: rest) =
      .string ⟨done.reverse ++ pieces, none⟩ :: tokens rest := by
  induction h generalizing done with
  | nil =>
    rw [List.append_nil]
    rfl
  | @plain c text pieces hcontrol hquote hbackslash _ ih =>
    rw [List.cons_append, tokens_cons, step_string hquote hbackslash,
      if_neg (Nat.not_lt.mpr hcontrol)]
    simpa using ih (.char c :: done)
  | @escaped letter c text pieces hletter _ ih =>
    rw [List.cons_append, List.cons_append, tokens_cons]
    change (Reading.escaped done).tokens _ = _
    rw [tokens_cons, step_escaped hletter]
    simpa using ih (.char c :: done)
  | @numbered c₁ c₂ c₃ c₄ d₁ d₂ d₃ d₄ text pieces h₁ h₂ h₃ h₄ _ ih =>
    change (Reading.numbered done 0 (some 0)).tokens (c₁ :: c₂ :: c₃ :: c₄ :: (text ++ '"' :: rest)) = _
    rw [tokens_hexDigit h₁ (by decide), tokens_hexDigit h₂ (by decide),
      tokens_hexDigit h₃ (by decide), tokens_lastHexDigit h₄]
    simpa using ih (.unit (16 * (16 * (16 * d₁ + d₂) + d₃) + d₄) :: done)

theorem NumberText.token_of_value {n : NumberText} {number : Number} (h : n.value = some number) :
    n.numeral.token = .number number := by
  have hvalue : n.numeral.value = some number := h
  rw [Numeral.token, hvalue]

theorem NumberText.token_of_tooLarge {n : NumberText} (h : n.value = none) :
    n.numeral.token = .tooLarge := by
  have hvalue : n.numeral.value = none := h
  rw [Numeral.token, hvalue]

theorem ScalarWriting.emits {text : List Char} {token : Token} (h : ScalarWriting text token) :
    Emits text [token] := by
  intro rest hrest
  cases h with
  | null | true | false => rfl
  | string h =>
    rw [List.cons_append, List.append_assoc]
    exact h.tokens_string [] rest
  | int hlow hhigh => exact tokens_intText hlow hhigh hrest
  | double n h => rw [tokens_numberText n hrest, n.token_of_value h]; rfl
  | tooLarge n h => rw [tokens_numberText n hrest, n.token_of_tooLarge h]; rfl

theorem ScalarWriting.isScalar {text : List Char} {token : Token} (h : ScalarWriting text token) :
    Node.isScalar token = Bool.true := by
  cases h <;> rfl

/-! ### Values -/

section

variable {text front back space : List Char} {texts : List (List Char)} {ts : List Token}
  {node : Node}

theorem Emits.spaced (h : Emits text ts) (hfront : IsBlank front) (hback : IsBlank back) :
    Emits (front ++ (text ++ back)) ts := by
  intro rest hrest
  rw [List.append_assoc, tokens_blank hfront, List.append_assoc, h _ (ended_blank hback hrest),
    tokens_blank hback]

/-- Space behind the bracket that opens an array or an object says nothing. -/
theorem Emits.opening {opening : Char} {first : Token}
    (hopening : begin opening = (.between, [first])) (h : Emits (opening :: text) ts)
    (hspace : IsBlank space) : Emits (opening :: (space ++ text)) ts := by
  intro rest hrest
  have hopen (more : List Char) : tokens (opening :: more) = first :: tokens more := by
    rw [tokens, tokens_cons, step, hopening]
    rfl
  rw [← h rest hrest, List.cons_append, hopen, List.append_assoc, tokens_blank hspace,
    List.cons_append, hopen]

theorem Spells.opening {opening : Char} {first : Token}
    (hopening : begin opening = (.between, [first])) (h : Spells (opening :: text) node)
    (hspace : IsBlank space) : Spells (opening :: (space ++ text)) node := by
  obtain ⟨ts, hemits, hreads⟩ := h
  exact ⟨ts, hemits.opening hopening hspace, hreads⟩

theorem Spells.spaced (h : Spells text node) (hfront : IsBlank front) (hback : IsBlank back) :
    Spells (front ++ (text ++ back)) node := by
  obtain ⟨ts, hemits, hreads⟩ := h
  exact ⟨ts, hemits.spaced hfront hback, hreads⟩

theorem ScalarWriting.spells {token : Token} (h : ScalarWriting text token) :
    Spells text (Node.ofToken token) := ⟨[token], h.emits, reads_scalar h.isScalar⟩

theorem PieceWriting.member {key : List Char} {pieces : List Piece} (hkey : PieceWriting key pieces)
    (hfront : IsBlank front) (hback : IsBlank back) (h : Spells text node) :
    SpellsMember (front ++ '"' :: (key ++ '"' :: (back ++ ':' :: text))) (⟨pieces, none⟩, node) := by
  obtain ⟨ts, hemits, hreads⟩ := h
  refine ⟨_, fun rest hrest => ?_, ts, rfl, hreads⟩
  have hquote (more : List Char) : tokens ('"' :: (key ++ '"' :: more)) =
      .string ⟨pieces, none⟩ :: tokens more := hkey.tokens_string [] more
  have hcolon : tokens (':' :: (text ++ rest)) = .colon :: tokens (text ++ rest) := rfl
  simp only [List.append_assoc, List.cons_append]
  rw [tokens_blank hfront, hquote, tokens_blank hback, hcolon, hemits rest hrest]

end

mutual

/-- **A text of a value** spells it. -/
theorem Writing.spells : ∀ {text : List Char} {node : Node}, Writing text node → Spells text node
  | _, _, .scalar h => h.spells
  | _, _, .array hspace h => (spells_array h.spells).opening rfl hspace
  | _, _, .object hspace h => (spells_object h.spells).opening rfl hspace
  | _, _, .spaced hfront hback h => h.spells.spaced hfront hback

/-- `Writing.spells`, item by item. -/
theorem ItemWritings.spells : ∀ {texts : List (List Char)} {nodes : List Node},
    ItemWritings texts nodes → List.Forall₂ Spells texts nodes
  | _, _, .nil => .nil
  | _, _, .cons first rest => .cons first.spells rest.spells

/-- `Writing.spells`, member by member. -/
theorem MemberWritings.spells : ∀ {texts : List (List Char)} {members : List (Quoted × Node)},
    MemberWritings texts members → List.Forall₂ SpellsMember texts members
  | _, _, .nil => .nil
  | _, _, .cons hfront hback hkey hvalue rest =>
    .cons (hkey.member hfront hback hvalue.spells) rest.spells

end

/-- A text has one shape at most. -/
theorem Writing.unique {text : List Char} {node node' : Node} (h : Writing text node)
    (h' : Writing text node') : node = node' :=
  (Prod.mk.inj ((ofText_of_spells h.spells).symm.trans (ofText_of_spells h'.spells))).1

end ArchFacts.Json
