import ArchFacts.Proofs.Json.Values
import ArchFacts.Proofs.Results

/-!
# What is read is proper

Whatever a text is, the integers in it are read as ones of at most 64 bits, and the fields of its
objects are put in order. So a value that was read is proper, and no deeper than it may be
(`parse_proper`). Nothing is asked of the text: every token is proper, and what is built of proper
tokens is proper (`Node.Proper`), be it cut off or broken.
-/

namespace ArchFacts.Json

/-! ### Tokens -/

/-- A number as a value may have it. -/
def Number.Proper : Number → Prop
  | .int n => (Value.int n).Proper
  | .float _ => True

/-- A token that is no number, or one that a value may have. -/
def Token.Proper : Token → Prop
  | .number n => n.Proper
  | _ => True

theorem gather_le {significand : Nat} (h : significand ≤ greatestSignificand) (digits : List Nat) :
    (gather significand digits).1 ≤ greatestSignificand := by
  fun_induction gather significand digits with
  | case1 => exact h
  | case2 significand d rest hfits ih => exact ih hfits
  | case3 => exact h

theorem Numeral.proper_value {n : Numeral} {number : Number} (h : n.value = some number) :
    number.Proper := by
  have hwhole := gather_le (Nat.zero_le _) n.whole.reverse
  have hgreatest : greatestSignificand + 1 = UInt64.size := by decide
  unfold Numeral.value at h
  dsimp only at h
  split at h
  · obtain rfl := Option.some.inj h
    exact ⟨by omega, by omega⟩
  · split at h
    case isTrue hnegative =>
      obtain rfl := Option.some.inj h
      simp only [Bool.and_eq_true, decide_eq_true_eq] at hnegative
      exact ⟨by omega, by omega⟩
    case isFalse =>
      obtain ⟨x, -, rfl⟩ := Option.map_eq_some_iff.mp h
      trivial

theorem Numeral.proper_token (n : Numeral) : n.token.Proper := by
  unfold Numeral.token
  cases hvalue : n.value with
  | none => trivial
  | some number => exact proper_value hvalue

namespace Reading

/-- What is being read will not give a token that is not proper. -/
def Proper : Reading → Prop
  | .word _ token => token.Proper
  | _ => True

/-- A reading that goes on, and the tokens that were completed. -/
structure Keeps (next : Reading × List Token) : Prop where
  reading : next.1.Proper
  tokens : ∀ token ∈ next.2, token.Proper

namespace Keeps

variable {reading : Reading} {token : Token} {next : Reading × List Token}

theorem silent (h : reading.Proper) : Keeps (reading, []) := ⟨h, List.forall_mem_nil _⟩

theorem single (h : reading.Proper) (htoken : token.Proper) : Keeps (reading, [token]) :=
  ⟨h, List.forall_mem_singleton.mpr htoken⟩

theorem cons (htoken : token.Proper) (h : Keeps next) : Keeps (next.1, token :: next.2) :=
  ⟨h.reading, List.forall_mem_cons.mpr ⟨htoken, h.tokens⟩⟩

end Keeps

theorem keeps_begin (c : Char) : Keeps (begin c) := by
  unfold begin
  split
  case isTrue => exact .silent trivial
  case isFalse =>
    split
    case h_12 =>
      split
      case h_1 => exact .silent trivial
      case h_2 => exact .single trivial trivial
    -- the brackets, the comma and the colon; then what goes on as a string, a word or a number
    case h_1 | h_2 | h_3 | h_4 | h_5 | h_6 => exact .single trivial trivial
    all_goals exact .silent trivial

theorem keeps_stepNumbered (done : List Piece) (bytes : Nat) (code : Option Nat) (c : Char) :
    Keeps (stepNumbered done bytes code c) := by
  unfold stepNumbered
  dsimp only
  split
  case isTrue => exact .silent trivial
  case isFalse =>
    split
    case h_1 => exact .silent trivial
    case h_2 => exact .single trivial trivial

theorem keeps_step {reading : Reading} (h : reading.Proper) (c : Char) : Keeps (reading.step c) := by
  fun_cases step reading c
  -- between tokens, and behind a number or a word that ends before the character
  case case1 => exact keeps_begin c
  case case11 n _ => exact .cons n.proper_token (keeps_begin c)
  case case13 => exact .cons h (keeps_begin c)
  -- in a word, and at its end
  case case14 => exact .single trivial h
  case case15 => exact .silent h
  case case9 => exact keeps_stepNumbered ..
  -- at the end of a string, and where there is a fault
  case case2 | case4 | case8 | case12 | case16 => exact .single trivial trivial
  all_goals exact .silent trivial

theorem proper_finish {reading : Reading} : ∀ token ∈ reading.finish, token.Proper := by
  fun_cases finish reading
  case case6 n _ => exact List.forall_mem_singleton.mpr n.proper_token
  case case1 | case2 => exact List.forall_mem_nil _
  all_goals exact List.forall_mem_singleton.mpr trivial

theorem proper_tokens {reading : Reading} (h : reading.Proper) (text : List Char) :
    ∀ token ∈ reading.tokens text, token.Proper := by
  induction text generalizing reading with
  | nil => exact proper_finish
  | cons c text ih =>
    have hstep := keeps_step h c
    exact List.forall_mem_append.mpr ⟨hstep.tokens, ih hstep.reading⟩

end Reading

/-- Every token of a text is proper. -/
theorem proper_tokens (text : List Char) : ∀ token ∈ tokens text, token.Proper := by
  have hbetween : Reading.between.Proper := trivial
  exact Reading.proper_tokens hbetween text

/-! ### Nodes -/

/-- A node with proper numbers in it. -/
inductive Node.Proper : Node → Prop where
  | null : Proper .null
  | bool (b : Bool) : Proper (.bool b)
  | string (s : Quoted) : Proper (.string s)
  | number {n : Number} (h : n.Proper) : Proper (.number n)
  | tooLarge : Proper .tooLarge
  | cutNumber : Proper .cutNumber
  | broken (f : Fault) : Proper (.broken f)
  | array {items : List Node} {cut : Option Fault} (h : ∀ node ∈ items, node.Proper) :
      Proper (.array items cut)
  | object {members : List (Quoted × Node)} {cut : Option Fault}
      (h : ∀ member ∈ members, member.2.Proper) : Proper (.object members cut)

/-- Proper nodes. -/
def ProperItems (items : List Node) : Prop := ∀ node ∈ items, node.Proper

/-- Members with proper nodes. -/
def ProperMembers (members : List (Quoted × Node)) : Prop := ∀ member ∈ members, member.2.Proper

/-- A frame with proper nodes in it. -/
def Frame.Proper : Frame → Prop
  | .array items => ProperItems items
  | .object members | .member members _ => ProperMembers members

/-- Frames with proper nodes in them. -/
def ProperStack (stack : List Frame) : Prop := ∀ frame ∈ stack, frame.Proper

/-- What is awaited, behind a proper node if there is one. -/
def Awaited.Proper : Awaited → Prop
  | .separator done => done.Proper
  | _ => True

section

variable {stack : List Frame} {frame : Frame} {node : Node} {items : List Node} {key : Quoted}
  {members : List (Quoted × Node)} {cut : Option Fault}

@[simp]
theorem properItems_nil : ProperItems [] := List.forall_mem_nil _

@[simp]
theorem properItems_cons : ProperItems (node :: items) ↔ node.Proper ∧ ProperItems items :=
  List.forall_mem_cons

@[simp]
theorem properItems_reverse : ProperItems items.reverse ↔ ProperItems items := by
  simp [ProperItems]

@[simp]
theorem properMembers_nil : ProperMembers [] := List.forall_mem_nil _

@[simp]
theorem properMembers_cons :
    ProperMembers ((key, node) :: members) ↔ node.Proper ∧ ProperMembers members :=
  List.forall_mem_cons

@[simp]
theorem properMembers_reverse : ProperMembers members.reverse ↔ ProperMembers members := by
  simp [ProperMembers]

@[simp]
theorem properStack_nil : ProperStack [] := List.forall_mem_nil _

@[simp]
theorem properStack_cons : ProperStack (frame :: stack) ↔ frame.Proper ∧ ProperStack stack :=
  List.forall_mem_cons

namespace Node

@[simp]
theorem proper_array : (Node.array items cut).Proper ↔ ProperItems items :=
  ⟨fun h => by cases h; assumption, .array⟩

@[simp]
theorem proper_object : (Node.object members cut).Proper ↔ ProperMembers members :=
  ⟨fun h => by cases h; assumption, .object⟩

theorem proper_ofToken {token : Token} (h : token.Proper) : (ofToken token).Proper := by
  fun_cases ofToken token
  case case1 => exact .null
  case case2 => exact .bool _
  case case3 => exact .string _
  case case4 => exact .number h
  case case5 => exact .tooLarge
  case case6 => exact .cutNumber
  case case7 => exact .broken _

/-- The items of an array stand in its frame last item first. -/
theorem proper_arrayOf (h : ProperItems items) : (Node.array items.reverse cut).Proper :=
  proper_array.mpr (properItems_reverse.mpr h)

/-- The members of an object stand in its frame last member first. -/
theorem proper_objectOf (h : ProperMembers members) : (Node.object members.reverse cut).Proper :=
  proper_object.mpr (properMembers_reverse.mpr h)

theorem proper_close (hstack : ProperStack stack) (hnode : node.Proper) :
    (close stack node).Proper := by
  fun_induction close stack node with
  | case1 => exact hnode
  | case2 items stack node ih =>
    obtain ⟨hitems, hrest⟩ := properStack_cons.mp hstack
    exact ih hrest (proper_arrayOf (properItems_cons.mpr ⟨hnode, hitems⟩))
  | case3 members stack node ih =>
    obtain ⟨hmembers, hrest⟩ := properStack_cons.mp hstack
    exact ih hrest (proper_objectOf hmembers)
  | case4 members key stack node ih =>
    obtain ⟨hmembers, hrest⟩ := properStack_cons.mp hstack
    exact ih hrest (proper_objectOf (properMembers_cons.mpr ⟨hnode, hmembers⟩))

/-- Proper tokens are read as a proper node. -/
theorem proper_read {awaited : Awaited} {tokens : List Token} (hawaited : awaited.Proper)
    (hstack : ProperStack stack) (htokens : ∀ token ∈ tokens, token.Proper) :
    (read awaited stack tokens).1.Proper := by
  have hnext {token : Token} {rest : List Token} (h : ∀ t ∈ token :: rest, t.Proper) :
      token.Proper ∧ ∀ t ∈ rest, t.Proper := List.forall_mem_cons.mp h
  fun_induction read awaited stack tokens with
  | case1 => exact hawaited
  | case2 | case31 => exact proper_close hstack (.broken _)
  -- a value: one that is cut off, a scalar, and what opens an array or an object
  | case6 | case12 => exact proper_close hstack (proper_ofToken (hnext htokens).1)
  | case5 _ _ _ _ _ _ ih | case11 _ _ _ _ _ _ _ ih =>
    exact ih (proper_ofToken (hnext htokens).1) hstack (hnext htokens).2
  | case3 _ _ ih | case9 _ _ ih =>
    exact ih trivial (properStack_cons.mpr ⟨properItems_nil, hstack⟩) (hnext htokens).2
  | case4 _ _ ih | case10 _ _ ih =>
    exact ih trivial (properStack_cons.mpr ⟨properMembers_nil, hstack⟩) (hnext htokens).2
  -- in an array before its first item, and behind an item
  | case7 =>
    obtain ⟨hitems, hrest⟩ := properStack_cons.mp hstack
    exact proper_close hrest (proper_arrayOf hitems)
  | case8 _ _ _ ih =>
    obtain ⟨hitems, hrest⟩ := properStack_cons.mp hstack
    exact ih (proper_arrayOf hitems) hrest (hnext htokens).2
  | case13 | case16 =>
    obtain ⟨hitems, hrest⟩ := properStack_cons.mp hstack
    exact proper_close hrest (proper_arrayOf (properItems_cons.mpr ⟨hawaited, hitems⟩))
  | case14 _ _ _ _ ih =>
    obtain ⟨hitems, hrest⟩ := properStack_cons.mp hstack
    have hframe := properItems_cons.mpr ⟨hawaited, hitems⟩
    exact ih trivial (properStack_cons.mpr ⟨hframe, hrest⟩) (hnext htokens).2
  | case15 _ _ _ _ ih =>
    obtain ⟨hitems, hrest⟩ := properStack_cons.mp hstack
    exact ih (proper_arrayOf (properItems_cons.mpr ⟨hawaited, hitems⟩)) hrest (hnext htokens).2
  -- in an object behind a member
  | case17 | case20 =>
    obtain ⟨hmembers, hrest⟩ := properStack_cons.mp hstack
    exact proper_close hrest (proper_objectOf (properMembers_cons.mpr ⟨hawaited, hmembers⟩))
  | case18 node members key _ _ ih =>
    obtain ⟨hmembers, hrest⟩ := properStack_cons.mp hstack
    have hframe : ProperMembers ((key, node) :: members) :=
      properMembers_cons.mpr ⟨hawaited, hmembers⟩
    exact ih trivial (properStack_cons.mpr ⟨hframe, hrest⟩) (hnext htokens).2
  | case19 _ _ _ _ _ ih =>
    obtain ⟨hmembers, hrest⟩ := properStack_cons.mp hstack
    exact ih (proper_objectOf (properMembers_cons.mpr ⟨hawaited, hmembers⟩)) hrest (hnext htokens).2
  -- before a key, at a key, and at the colon behind it
  | case24 | case25 | case26 | case27 =>
    obtain ⟨hmembers, hrest⟩ := properStack_cons.mp hstack
    exact proper_close hrest (proper_objectOf hmembers)
  | case21 _ _ _ ih =>
    obtain ⟨hmembers, hrest⟩ := properStack_cons.mp hstack
    exact ih (proper_objectOf hmembers) hrest (hnext htokens).2
  | case22 _ _ _ ih | case23 _ _ _ ih => exact ih trivial hstack (hnext htokens).2
  | case28 _ _ _ _ ih =>
    obtain ⟨hmembers, hrest⟩ := properStack_cons.mp hstack
    exact ih trivial (properStack_cons.mpr ⟨hmembers, hrest⟩) (hnext htokens).2
  | case29 | case30 =>
    obtain ⟨hmembers, hrest⟩ := properStack_cons.mp hstack
    exact proper_close hrest (proper_objectOf (properMembers_cons.mpr ⟨.broken _, hmembers⟩))

end Node

end

/-! ### Fields -/

namespace Fields

variable {α : Type} {key : String} {value : α} {fields : Fields α} {field : String × α}

theorem mem_of_mem_insert (h : field ∈ insert key value fields) :
    field = (key, value) ∨ field ∈ fields := by
  fun_induction insert key value fields with
  | case1 => exact Or.inl (List.mem_singleton.mp h)
  | case2 => exact List.mem_cons.mp h
  | case3 k v rest => exact (List.mem_cons.mp h).imp_right (List.mem_cons_of_mem _)
  | case4 k v rest hafter hne ih =>
    rcases List.mem_cons.mp h with rfl | h
    · exact Or.inr List.mem_cons_self
    · exact (ih h).imp_right (List.mem_cons_of_mem _)

theorem ordered_insert (h : Ordered fields) : Ordered (insert key value fields) := by
  fun_induction insert key value fields with
  | case1 => exact List.pairwise_singleton _ _
  | case2 k v rest hbefore =>
    have hrest := (List.pairwise_cons.mp h).1
    refine List.pairwise_cons.mpr ⟨List.forall_mem_cons.mpr ⟨hbefore, fun b hb => ?_⟩, h⟩
    exact String.lt_trans hbefore (hrest b hb)
  | case3 v rest => exact List.pairwise_cons.mpr (List.pairwise_cons.mp h)
  | case4 k v rest hafter hne ih =>
    obtain ⟨hfirst, hrest⟩ := List.pairwise_cons.mp h
    refine List.pairwise_cons.mpr ⟨fun b hb => ?_, ih hrest⟩
    rcases mem_of_mem_insert hb with rfl | hb
    · exact String.not_le.mp fun hle => hne (String.le_antisymm hle (String.not_lt.mp hafter))
    · exact hfirst b hb

/-- Fields that are set one after the other are in order, and none but those that are set. -/
theorem ordered_ofPairs (pairs : List (String × α)) :
    Ordered (ofPairs pairs) ∧ ∀ field ∈ ofPairs pairs, field ∈ pairs := by
  have hfold (done : Fields α) (hdone : Ordered done) :
      let fields := pairs.foldl (fun fields pair => insert pair.1 pair.2 fields) done
      Ordered fields ∧ ∀ field ∈ fields, field ∈ done ∨ field ∈ pairs := by
    induction pairs generalizing done with
    | nil => exact ⟨hdone, fun field hfield => Or.inl hfield⟩
    | cons pair pairs ih =>
      obtain ⟨hordered, hmem⟩ := ih _ (ordered_insert hdone)
      refine ⟨hordered, fun field hfield => ?_⟩
      rcases hmem field hfield with hfield | hfield
      · rcases mem_of_mem_insert hfield with rfl | hfield
        · exact Or.inr List.mem_cons_self
        · exact Or.inl hfield
      · exact Or.inr (List.mem_cons_of_mem _ hfield)
  obtain ⟨hordered, hmem⟩ := hfold [] List.Pairwise.nil
  exact ⟨hordered, fun field hfield => (hmem field hfield).resolve_left List.not_mem_nil⟩

end Fields

/-! ### Values -/

namespace Value

variable {fields pairs : List (String × Value)} {room : Nat}

theorem properFields_iff : ProperFields fields ↔ ∀ field ∈ fields, field.2.Proper := by
  induction fields with
  | nil => exact iff_of_true trivial (List.forall_mem_nil _)
  | cons field fields ih => rw [ProperFields, ih, List.forall_mem_cons]

theorem depthFields_le_iff :
    depthFields fields ≤ room ↔ ∀ field ∈ fields, field.2.depth ≤ room := by
  induction fields with
  | nil => exact iff_of_true (Nat.zero_le _) (List.forall_mem_nil _)
  | cons field fields ih => rw [depthFields, Nat.max_le, ih, List.forall_mem_cons]

/-- To set fields one after the other makes a proper object of proper values. -/
theorem proper_ofPairs (h : ProperFields pairs) : (ofPairs pairs).Proper := by
  obtain ⟨hordered, hsubset⟩ := Fields.ordered_ofPairs pairs
  refine ⟨hordered, properFields_iff.mpr fun field hfield => ?_⟩
  exact properFields_iff.mp h field (hsubset field hfield)

theorem depth_ofPairs_le (h : depthFields pairs ≤ room) : (ofPairs pairs).depth ≤ room + 1 := by
  have hsubset := (Fields.ordered_ofPairs pairs).2
  refine Nat.succ_le_succ (depthFields_le_iff.mpr fun field hfield => ?_)
  exact depthFields_le_iff.mp h field (hsubset field hfield)

end Value

namespace Node

mutual

/-- The value of a proper node is proper, and fits where it stands. -/
theorem proper_value : ∀ (node : Node) {room : Nat} {v : Value}, node.Proper →
    node.value room = .ok v → v.Proper ∧ v.depth ≤ room
  | .null, _, _, _, h | .bool _, _, _, _, h | .number (.float _), _, _, _, h => by
    obtain rfl := Except.ok.inj h
    exact ⟨trivial, Nat.zero_le _⟩
  | .number (.int n), _, _, hnode, h => by
    obtain rfl := Except.ok.inj h
    cases hnode with
    | number hn => exact ⟨hn, Nat.zero_le _⟩
  | .string s, _, _, _, h => by
    obtain ⟨text, -, rfl⟩ := map_eq_ok.mp h
    exact ⟨trivial, Nat.zero_le _⟩
  | .array items cut, 0, _, _, h | .object members cut, 0, _, _, h => by cases h
  | .array items cut, room + 1, v, hnode, h => by
    obtain ⟨values, hvalues, hrest⟩ := bind_eq_ok.mp h
    obtain ⟨-, -, hself⟩ := bind_eq_ok.mp hrest
    obtain rfl := Except.ok.inj hself
    obtain ⟨hproper, hdepth⟩ := proper_valueItems items (proper_array.mp hnode) hvalues
    exact ⟨hproper, Nat.succ_le_succ hdepth⟩
  | .object members cut, room + 1, v, hnode, h => by
    obtain ⟨pairs, hpairs, hrest⟩ := bind_eq_ok.mp h
    obtain ⟨-, -, hself⟩ := bind_eq_ok.mp hrest
    obtain rfl := Except.ok.inj hself
    obtain ⟨hproper, hdepth⟩ := proper_valueMembers members (proper_object.mp hnode) hpairs
    exact ⟨Value.proper_ofPairs hproper, Value.depth_ofPairs_le hdepth⟩
  | .tooLarge, _, _, _, h | .cutNumber, _, _, _, h | .broken _, _, _, _, h => by cases h

/-- `proper_value`, item by item. -/
theorem proper_valueItems : ∀ (items : List Node) {room : Nat} {values : List Value},
    ProperItems items → valueItems room items = .ok values →
    Value.ProperItems values ∧ Value.depthItems values ≤ room
  | [], _, _, _, h => by
    obtain rfl := Except.ok.inj h
    exact ⟨trivial, Nat.zero_le _⟩
  | node :: rest, _, _, hitems, h => by
    obtain ⟨hnode, hrest⟩ := properItems_cons.mp hitems
    obtain ⟨v, hv, hothers⟩ := bind_eq_ok.mp h
    obtain ⟨values, hvalues, hself⟩ := bind_eq_ok.mp hothers
    obtain rfl := Except.ok.inj hself
    obtain ⟨hproper, hdepth⟩ := proper_value node hnode hv
    obtain ⟨hpropers, hdepths⟩ := proper_valueItems rest hrest hvalues
    exact ⟨⟨hproper, hpropers⟩, Nat.max_le.mpr ⟨hdepth, hdepths⟩⟩

/-- `proper_value`, member by member. -/
theorem proper_valueMembers : ∀ (members : List (Quoted × Node)) {room : Nat}
    {pairs : List (String × Value)}, ProperMembers members → valueMembers room members = .ok pairs →
    Value.ProperFields pairs ∧ Value.depthFields pairs ≤ room
  | [], _, _, _, h => by
    obtain rfl := Except.ok.inj h
    exact ⟨trivial, Nat.zero_le _⟩
  | (key, node) :: rest, _, _, hmembers, h => by
    obtain ⟨hnode, hrest⟩ := properMembers_cons.mp hmembers
    obtain ⟨name, -, hothers⟩ := bind_eq_ok.mp h
    obtain ⟨v, hv, hothers⟩ := bind_eq_ok.mp hothers
    obtain ⟨pairs, hpairs, hself⟩ := bind_eq_ok.mp hothers
    obtain rfl := Except.ok.inj hself
    obtain ⟨hproper, hdepth⟩ := proper_value node hnode hv
    obtain ⟨hpropers, hdepths⟩ := proper_valueMembers rest hrest hpairs
    exact ⟨⟨hproper, hpropers⟩, Nat.max_le.mpr ⟨hdepth, hdepths⟩⟩

end

/-- Every text has a proper shape. -/
theorem proper_ofText (text : List Char) : (ofText text).1.Proper := by
  have hvalue : Awaited.value.Proper := trivial
  exact proper_read hvalue properStack_nil (proper_tokens text)

end Node

/-- What is decoded from a whole text is decoded from the shape of this text. -/
theorem readWhole_eq_ok {α ε : Type} {ofFault : Fault → ε} {decode : Node → Except ε α}
    {text : List Char} {a : α} (h : readWhole ofFault decode text = .ok a) :
    decode (Node.ofText text).1 = .ok a := by
  obtain ⟨b, hdecode, hrest⟩ := bind_eq_ok.mp h
  split at hrest
  case isTrue => rwa [← Except.ok.inj hrest]
  case isFalse => cases hrest

/-- **Values that are read** are proper, and no deeper than they may be. -/
theorem parse_proper {text : List Char} {v : Value} (h : parse text = .ok v) :
    v.Proper ∧ v.depth ≤ deepest :=
  Node.proper_value _ (Node.proper_ofText text) (readWhole_eq_ok h)

end ArchFacts.Json
