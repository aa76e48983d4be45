import ArchFacts.Proofs.Json.Scalars

/-!
# Texts that spell a node

A text *spells* a node if the tokens of the text are read as this node wherever a value is awaited
(`Spells`). Arrays and objects spell a node if their parts do, so what the parts look like does not
matter to what stands around them. A reader of whole texts then decodes just this node
(`readWhole_of_spells`).
-/

namespace ArchFacts.Json

open Reading

/-- A text that gives just these tokens, in front of what may follow a value. -/
def Emits (text : List Char) (ts : List Token) : Prop :=
  ∀ rest, Ended rest → tokens (text ++ rest) = ts ++ tokens rest

/-- Tokens that are read as a node: where a value is awaited, and as the first item of an array. -/
structure Reads (ts : List Token) (node : Node) : Prop where
  value : ∀ stack rest, Node.read .value stack (ts ++ rest) = Node.read (.separator node) stack rest
  item : ∀ stack rest, Node.read .item stack (ts ++ rest) = Node.read (.separator node) stack rest

/-- Tokens that are read as a member of an object: a key, a colon and a value. -/
def ReadsMember (ts : List Token) (member : Quoted × Node) : Prop :=
  ∃ value, ts = .string member.1 :: .colon :: value ∧ Reads value member.2

/-- A text whose tokens are read as a node. -/
def Spells (text : List Char) (node : Node) : Prop := ∃ ts, Emits text ts ∧ Reads ts node

/-- A text whose tokens are read as a member of an object. -/
def SpellsMember (text : List Char) (member : Quoted × Node) : Prop :=
  ∃ ts, Emits text ts ∧ ReadsMember ts member

/-- The first item of an array is read like any other value, where no end of the array stands. -/
theorem read_item_eq_value {token : Token} (h : token ≠ .closeArray) (stack : List Frame)
    (ts : List Token) : Node.read .item stack (token :: ts) = Node.read .value stack (token :: ts) := by
  rcases stack with - | ⟨- | - | -, stack⟩ <;> cases token <;> first | rfl | exact absurd rfl h

theorem Reads.of_value {token : Token} {ts : List Token} {node : Node} (h : token ≠ .closeArray)
    (hvalue : ∀ stack rest,
      Node.read .value stack (token :: (ts ++ rest)) = Node.read (.separator node) stack rest) :
    Reads (token :: ts) node :=
  ⟨hvalue, fun stack rest => (read_item_eq_value h stack (ts ++ rest)).trans (hvalue stack rest)⟩

/-! ### Scalars -/

theorem reads_scalar {token : Token} (h : Node.isScalar token = true) :
    Reads [token] (Node.ofToken token) := by
  refine .of_value ?_ fun stack rest => ?_
  · rintro rfl
    cases h
  · rw [List.nil_append, Node.read]
    · exact if_pos h
    · rintro rfl
      cases h
    · rintro rfl
      cases h

theorem spells_null : Spells ['n', 'u', 'l', 'l'] .null :=
  ⟨[.null], fun _ _ => rfl, reads_scalar rfl⟩

theorem spells_true : Spells ['t', 'r', 'u', 'e'] (.bool true) :=
  ⟨[.bool true], fun _ _ => rfl, reads_scalar rfl⟩

theorem spells_false : Spells ['f', 'a', 'l', 's', 'e'] (.bool false) :=
  ⟨[.bool false], fun _ _ => rfl, reads_scalar rfl⟩

theorem spells_quote (s : String) : Spells (quote s) (.string (.written s)) :=
  ⟨[.string (.written s)], fun rest _ => tokens_quote s rest, reads_scalar rfl⟩

theorem spells_intText {n : Int} (hlow : -UInt64.size ≤ 2 * n) (hhigh : n < UInt64.size) :
    Spells (intText n) (.number (.int n)) :=
  ⟨[.number (.int n)], fun _ hrest => tokens_intText hlow hhigh hrest, reads_scalar rfl⟩

/-! ### Commas and brackets -/

/-- The tokens of values or members with a comma between any two. -/
def commaTokens : List (List Token) → List Token
  | [] => []
  | ts :: rest => ts ++ rest.flatMap (.comma :: ·)

theorem commaSeparated_cons (text : List Char) (texts : List (List Char)) :
    commaSeparated (text :: texts) = text ++ texts.flatMap (',' :: ·) := by
  induction texts generalizing text with
  | nil => simp [commaSeparated]
  | cons second texts ih => exact congrArg (fun rest => text ++ ',' :: rest) (ih second)

theorem ended_cons {c : Char} (hc : endsValue c = true) (rest : List Char) : Ended (c :: rest) := by
  rintro _ ⟨⟩
  exact hc

theorem ended_flatMap (texts : List (List Char)) {rest : List Char} (hrest : Ended rest) :
    Ended (texts.flatMap (',' :: ·) ++ rest) := by
  cases texts with
  | nil => exact hrest
  | cons text texts => exact ended_cons rfl _

/-- What stands after the first value or member. -/
theorem emits_flatMap {texts : List (List Char)} {tss : List (List Token)}
    (h : List.Forall₂ Emits texts tss) :
    Emits (texts.flatMap (',' :: ·)) (tss.flatMap (.comma :: ·)) := by
  induction h with
  | nil => exact fun _ _ => rfl
  | @cons text ts texts tss hfirst _ ih =>
    intro rest hrest
    -- the text ends at the comma before the next one, or where all of them end
    have hcomma : tokens (',' :: (text ++ (texts.flatMap (',' :: ·) ++ rest))) =
        .comma :: tokens (text ++ (texts.flatMap (',' :: ·) ++ rest)) := rfl
    rw [List.flatMap_cons, List.append_assoc, List.cons_append, hcomma]
    rw [hfirst _ (ended_flatMap texts hrest), ih rest hrest, List.flatMap_cons]
    simp

/-- An array or an object, whatever stands in it. -/
theorem emits_enclosed {opening closing : Char} {first last : Token} {texts : List (List Char)}
    {tss : List (List Token)} (hopening : begin opening = (.between, [first]))
    (hclosing : begin closing = (.between, [last])) (hends : endsValue closing = true)
    (h : List.Forall₂ Emits texts tss) :
    Emits (opening :: (commaSeparated texts ++ [closing]))
      (first :: (commaTokens tss ++ [last])) := by
  intro rest _
  have hopen (more : List Char) : tokens (opening :: more) = first :: tokens more := by
    rw [tokens, tokens_cons, step, hopening]
    rfl
  have hclose : tokens (closing :: rest) = last :: tokens rest := by
    rw [tokens, tokens_cons, step, hclosing]
    rfl
  rw [List.cons_append, List.append_assoc, List.singleton_append, hopen]
  cases h with
  | nil => exact congrArg (first :: ·) hclose
  | @cons text ts texts tss hfirst hothers =>
    have hended : Ended (closing :: rest) := ended_cons hends rest
    rw [commaSeparated_cons, List.append_assoc, hfirst _ (ended_flatMap texts hended)]
    rw [emits_flatMap hothers _ hended, hclose, commaTokens]
    simp

/-! ### Arrays and objects -/

/-- The items after the first one, up to the end of the array. -/
theorem read_items {tss : List (List Token)} {nodes : List Node} (h : List.Forall₂ Reads tss nodes)
    (node : Node) (done : List Node) (stack : List Frame) (rest : List Token) :
    Node.read (.separator node) (.array done :: stack)
        (tss.flatMap (.comma :: ·) ++ .closeArray :: rest) =
      Node.read (.separator (.array (done.reverse ++ node :: nodes) none)) stack rest := by
  induction h generalizing node done with
  | nil => rw [List.flatMap_nil, List.nil_append, Node.read, List.reverse_cons]
  | cons hfirst _ ih =>
    rw [List.flatMap_cons, List.append_assoc, List.cons_append, Node.read, hfirst.value, ih]
    simp

theorem reads_array {tss : List (List Token)} {nodes : List Node}
    (h : List.Forall₂ Reads tss nodes) :
    Reads (.openArray :: (commaTokens tss ++ [.closeArray])) (.array nodes none) := by
  cases h with
  | nil => exact .of_value nofun fun _ _ => rfl
  | @cons ts node tss nodes hfirst hothers =>
    refine .of_value nofun fun stack rest => ?_
    have hitems := read_items hothers node [] stack rest
    rw [commaTokens, Node.read, List.append_assoc, List.append_assoc, hfirst.item]
    exact hitems

/-- The members after the first one, up to the end of the object. -/
theorem read_members {tss : List (List Token)} {members : List (Quoted × Node)}
    (h : List.Forall₂ ReadsMember tss members) (node : Node) (key : Quoted)
    (done : List (Quoted × Node)) (stack : List Frame) (rest : List Token) :
    Node.read (.separator node) (.member done key :: stack)
        (tss.flatMap (.comma :: ·) ++ .closeObject :: rest) =
      Node.read (.separator (.object (done.reverse ++ (key, node) :: members) none)) stack rest := by
  induction h generalizing node key done with
  | nil => rw [List.flatMap_nil, List.nil_append, Node.read, List.reverse_cons]
  | @cons ts member tss members hfirst _ ih =>
    obtain ⟨value, rfl, hvalue⟩ := hfirst
    rw [List.flatMap_cons, List.append_assoc]
    -- past the comma, the key and the colon
    change Node.read .value (.member ((key, node) :: done) member.1 :: stack) (value ++ _) = _
    rw [hvalue.value, ih]
    simp

theorem reads_object {tss : List (List Token)} {members : List (Quoted × Node)}
    (h : List.Forall₂ ReadsMember tss members) :
    Reads (.openObject :: (commaTokens tss ++ [.closeObject])) (.object members none) := by
  cases h with
  | nil => exact .of_value nofun fun _ _ => rfl
  | @cons ts member tss members hfirst hothers =>
    obtain ⟨value, rfl, hvalue⟩ := hfirst
    refine .of_value nofun fun stack rest => ?_
    have hmembers := read_members hothers member.2 member.1 [] stack rest
    rw [commaTokens, List.append_assoc, List.append_assoc]
    change Node.read .value (.member [] member.1 :: stack) (value ++ _) = _
    rw [hvalue.value]
    exact hmembers

/-- Lists that are related through something are related through a list. -/
theorem exists_forall₂ {α β γ : Type} {r : α → β → Prop} {s : β → γ → Prop} {as : List α}
    {cs : List γ} (h : List.Forall₂ (fun a c => ∃ b, r a b ∧ s b c) as cs) :
    ∃ bs, List.Forall₂ r as bs ∧ List.Forall₂ s bs cs := by
  induction h with
  | nil => exact ⟨[], .nil, .nil⟩
  | cons hfirst _ ih =>
    obtain ⟨b, hr, hs⟩ := hfirst
    obtain ⟨bs, hrs, hss⟩ := ih
    exact ⟨b :: bs, .cons hr hrs, .cons hs hss⟩

theorem spells_array {texts : List (List Char)} {nodes : List Node}
    (h : List.Forall₂ Spells texts nodes) : Spells (writeArray texts) (.array nodes none) := by
  obtain ⟨tss, hemits, hreads⟩ := exists_forall₂ h
  exact ⟨_, emits_enclosed rfl rfl rfl hemits, reads_array hreads⟩

/-- Members with a comma between any two spell an object. -/
theorem spells_object {texts : List (List Char)} {members : List (Quoted × Node)}
    (h : List.Forall₂ SpellsMember texts members) :
    Spells ('\x7b' :: (commaSeparated texts ++ ['\x7d'])) (.object members none) := by
  obtain ⟨tss, hemits, hreads⟩ := exists_forall₂ h
  exact ⟨_, emits_enclosed rfl rfl rfl hemits, reads_object hreads⟩

/-- A key in quotes, a colon and a value are a member. -/
theorem Spells.member {text : List Char} {node : Node} (h : Spells text node) (key : String) :
    SpellsMember (quote key ++ ':' :: text) (.written key, node) := by
  obtain ⟨ts, hemits, hreads⟩ := h
  refine ⟨_, fun rest hrest => ?_, ts, rfl, hreads⟩
  have hcolon : tokens (':' :: (text ++ rest)) = .colon :: tokens (text ++ rest) := rfl
  rw [List.append_assoc, tokens_quote, List.cons_append, hcolon, hemits rest hrest]
  rfl

/-! ### Whole texts -/

theorem ofText_of_spells {text : List Char} {node : Node} (h : Spells text node) :
    Node.ofText text = (node, []) := by
  obtain ⟨ts, hemits, hreads⟩ := h
  have hall := hemits [] nofun
  rw [List.append_nil] at hall
  rw [Node.ofText, hall]
  exact hreads.value [] []

/-- **Reading a text** that spells a node decodes the node. -/
theorem readWhole_of_spells {α ε : Type} (ofFault : Fault → ε) (decode : Node → Except ε α)
    {text : List Char} {node : Node} (h : Spells text node) :
    readWhole ofFault decode text = decode node := by
  rw [readWhole, ofText_of_spells h]
  cases hresult : decode node with
  | error e => simp [hresult, bind, Except.bind]
  | ok a => simp [hresult, bind, Except.bind, pure, Except.pure]

end ArchFacts.Json
