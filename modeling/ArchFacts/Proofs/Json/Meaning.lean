import ArchFacts.Proofs.Json.Spelling

/-!
# What a shape means

The same string can be written in many ways: a character may stand for itself, behind a backslash or
as one number or two (`Joins`). So can a value: the members of an object stand in any order, and of
those with one name the last one counts (`Means`). These are the ways in which a shape is read as a
string (`Quoted.text_eq_ok_iff`) and as a value (`Node.value_eq_ok_iff`), and there is no other.
-/

namespace ArchFacts.Json

/-! ### Strings -/

/-- The pieces of a string and its characters. Half a surrogate pair is no character. -/
inductive Joins : List Piece → List Char → Prop where
  | nil : Joins [] []
  | char {c : Char} {pieces : List Piece} {cs : List Char} (rest : Joins pieces cs) :
      Joins (.char c :: pieces) (c :: cs)
  | unit {n : Nat} {pieces : List Piece} {cs : List Char} (hhigh : isHigh n = false)
      (hlow : isLow n = false) (rest : Joins pieces cs) :
      Joins (.unit n :: pieces) (Char.ofNat n :: cs)
  | pair {n m : Nat} {pieces : List Piece} {cs : List Char} (hhigh : isHigh n = true)
      (hlow : isLow m = true) (rest : Joins pieces cs) :
      Joins (.unit n :: .unit m :: pieces) (combine n m :: cs)

/-- A string as it is written stands for a string. -/
structure Quoted.StandsFor (q : Quoted) (s : String) : Prop where
  cut : q.cut = none
  joins : Joins q.pieces s.toList

theorem joinPieces_of_joins {pieces : List Piece} {cs : List Char} (h : Joins pieces cs) :
    joinPieces none pieces = .ok cs := by
  induction h with
  | nil => rfl
  | char _ ih => rw [joinPieces, ih]; rfl
  | unit hhigh hlow _ ih => rw [joinPieces_unit hhigh hlow, ih]; rfl
  | pair hhigh hlow _ ih => rw [joinPieces, if_pos hhigh, if_pos hlow, ih]; rfl

theorem joins_of_joinPieces {cut : Option Fault} {pieces : List Piece} {cs : List Char}
    (h : joinPieces cut pieces = .ok cs) : cut = none ∧ Joins pieces cs := by
  fun_induction joinPieces cut pieces generalizing cs with
  -- the faults: one that cuts the pieces off, and halves of surrogate pairs
  | case1 | case4 | case7 | case8 | case10 => cases h
  | case2 hcut =>
    obtain rfl := Except.ok.inj h
    exact ⟨hcut, .nil⟩
  | case3 c pieces ih =>
    obtain ⟨rest, hrest, rfl⟩ := map_eq_ok.mp h
    obtain ⟨hcut, hjoins⟩ := ih hrest
    exact ⟨hcut, .char hjoins⟩
  | case6 n m pieces hhigh hlow ih =>
    obtain ⟨rest, hrest, rfl⟩ := map_eq_ok.mp h
    obtain ⟨hcut, hjoins⟩ := ih hrest
    exact ⟨hcut, .pair hhigh hlow hjoins⟩
  | case5 n hnone ih | case11 n _ _ hnone ih =>
    obtain ⟨hhigh, hlow⟩ := Bool.or_eq_false_iff.mp (eq_false_of_ne_true hnone)
    obtain ⟨rest, hrest, rfl⟩ := map_eq_ok.mp h
    obtain ⟨hcut, hjoins⟩ := ih hrest
    exact ⟨hcut, .unit hhigh hlow hjoins⟩
  | case9 n m pieces hhigh hlow ih =>
    obtain ⟨rest, hrest, rfl⟩ := map_eq_ok.mp h
    obtain ⟨hcut, hjoins⟩ := ih hrest
    exact ⟨hcut, .unit (eq_false_of_ne_true hhigh) (eq_false_of_ne_true hlow) hjoins⟩

/-- A string that can be read stands for what is read. -/
theorem Quoted.text_eq_ok_iff {q : Quoted} {s : String} : q.text = .ok s ↔ q.StandsFor s := by
  rw [Quoted.text, map_eq_ok]
  constructor
  · rintro ⟨cs, hjoin, rfl⟩
    obtain ⟨hcut, hjoins⟩ := joins_of_joinPieces hjoin
    exact ⟨hcut, by rwa [String.toList_ofList]⟩
  · rintro ⟨hcut, hjoins⟩
    exact ⟨s.toList, by rw [hcut, joinPieces_of_joins hjoins], String.ofList_toList⟩

/-- A string as it is written stands for one string at most. -/
theorem Quoted.StandsFor.unique {q : Quoted} {s s' : String} (h : q.StandsFor s)
    (h' : q.StandsFor s') : s = s' :=
  Except.ok.inj ((text_eq_ok_iff.mpr h).symm.trans (text_eq_ok_iff.mpr h'))

/-! ### Values -/

mutual

/-- A shape means a value, where `room` more arrays and objects may stand inside one another. -/
inductive Means : Nat → Node → Value → Prop where
  | null {room : Nat} : Means room .null .null
  | bool {room : Nat} (b : Bool) : Means room (.bool b) (.bool b)
  | int {room : Nat} (n : Int) : Means room (.number (.int n)) (.int n)
  | float {room : Nat} (x : Decimal.Binary64) : Means room (.number (.float x)) (.float x)
  | string {room : Nat} {q : Quoted} {s : String} (h : q.StandsFor s) :
      Means room (.string q) (.string s)
  | array {room : Nat} {nodes : List Node} {values : List Value} (h : MeansItems room nodes values) :
      Means (room + 1) (.array nodes none) (.array values)
  | object {room : Nat} {members : List (Quoted × Node)} {pairs : List (String × Value)}
      (h : MeansMembers room members pairs) : Means (room + 1) (.object members none) (.ofPairs pairs)

/-- `Means`, item by item. -/
inductive MeansItems : Nat → List Node → List Value → Prop where
  | nil {room : Nat} : MeansItems room [] []
  | cons {room : Nat} {node : Node} {v : Value} {nodes : List Node} {values : List Value}
      (first : Means room node v) (rest : MeansItems room nodes values) :
      MeansItems room (node :: nodes) (v :: values)

/-- `Means`, member by member. -/
inductive MeansMembers : Nat → List (Quoted × Node) → List (String × Value) → Prop where
  | nil {room : Nat} : MeansMembers room [] []
  | cons {room : Nat} {key : Quoted} {name : String} {node : Node} {v : Value}
      {members : List (Quoted × Node)} {pairs : List (String × Value)} (hkey : key.StandsFor name)
      (first : Means room node v) (rest : MeansMembers room members pairs) :
      MeansMembers room ((key, node) :: members) ((name, v) :: pairs)

end

namespace Node

mutual

/-- What is read as a value means it. -/
theorem means_of_value : ∀ {node : Node} {room : Nat} {v : Value},
    node.value room = .ok v → Means room node v
  | .null, _, _, h => by obtain rfl := Except.ok.inj h; exact .null
  | .bool b, _, _, h => by obtain rfl := Except.ok.inj h; exact .bool b
  | .number (.int n), _, _, h => by obtain rfl := Except.ok.inj h; exact .int n
  | .number (.float x), _, _, h => by obtain rfl := Except.ok.inj h; exact .float x
  | .string q, _, _, h => by
    obtain ⟨s, hs, rfl⟩ := map_eq_ok.mp h
    exact .string (Quoted.text_eq_ok_iff.mp hs)
  | .array items cut, 0, _, h => nomatch h
  | .array items cut, room + 1, _, h => by
    obtain ⟨values, hvalues, h⟩ := bind_eq_ok.mp h
    obtain ⟨⟨⟩, hcut, h⟩ := bind_eq_ok.mp h
    obtain rfl := checkEnd_eq_ok.mp hcut
    obtain rfl := Except.ok.inj h
    exact .array (means_of_valueItems hvalues)
  | .object members cut, 0, _, h => nomatch h
  | .object members cut, room + 1, _, h => by
    obtain ⟨pairs, hpairs, h⟩ := bind_eq_ok.mp h
    obtain ⟨⟨⟩, hcut, h⟩ := bind_eq_ok.mp h
    obtain rfl := checkEnd_eq_ok.mp hcut
    obtain rfl := Except.ok.inj h
    exact .object (means_of_valueMembers hpairs)
  | .tooLarge, _, _, h | .cutNumber, _, _, h | .broken _, _, _, h => nomatch h

/-- `means_of_value`, item by item. -/
theorem means_of_valueItems : ∀ {nodes : List Node} {room : Nat} {values : List Value},
    valueItems room nodes = .ok values → MeansItems room nodes values
  | [], _, _, h => by obtain rfl := Except.ok.inj h; exact .nil
  | node :: nodes, _, _, h => by
    obtain ⟨v, hv, h⟩ := bind_eq_ok.mp h
    obtain ⟨values, hvalues, h⟩ := bind_eq_ok.mp h
    obtain rfl := Except.ok.inj h
    exact .cons (means_of_value hv) (means_of_valueItems hvalues)

/-- `means_of_value`, member by member. -/
theorem means_of_valueMembers : ∀ {members : List (Quoted × Node)} {room : Nat}
    {pairs : List (String × Value)}, valueMembers room members = .ok pairs →
    MeansMembers room members pairs
  | [], _, _, h => by obtain rfl := Except.ok.inj h; exact .nil
  | (key, node) :: members, _, _, h => by
    obtain ⟨name, hname, h⟩ := bind_eq_ok.mp h
    obtain ⟨v, hv, h⟩ := bind_eq_ok.mp h
    obtain ⟨pairs, hpairs, h⟩ := bind_eq_ok.mp h
    obtain rfl := Except.ok.inj h
    exact .cons (Quoted.text_eq_ok_iff.mp hname) (means_of_value hv) (means_of_valueMembers hpairs)

end

mutual

/-- What means a value is read as it. -/
theorem value_of_means : ∀ {room : Nat} {node : Node} {v : Value},
    Means room node v → node.value room = .ok v
  | _, _, _, .null | _, _, _, .bool _ | _, _, _, .int _ | _, _, _, .float _ => rfl
  | _, _, _, .string h => by
    rw [value, Quoted.text_eq_ok_iff.mpr h]
    rfl
  | _, _, _, .array h => by
    rw [value, valueItems_of_means h]
    rfl
  | _, _, _, .object h => by
    rw [value, valueMembers_of_means h]
    rfl

/-- `value_of_means`, item by item. -/
theorem valueItems_of_means : ∀ {room : Nat} {nodes : List Node} {values : List Value},
    MeansItems room nodes values → valueItems room nodes = .ok values
  | _, _, _, .nil => rfl
  | _, _, _, .cons first rest => by
    rw [valueItems, value_of_means first, valueItems_of_means rest]
    rfl

/-- `value_of_means`, member by member. -/
theorem valueMembers_of_means : ∀ {room : Nat} {members : List (Quoted × Node)}
    {pairs : List (String × Value)}, MeansMembers room members pairs →
    valueMembers room members = .ok pairs
  | _, _, _, .nil => rfl
  | _, _, _, .cons hkey first rest => by
    rw [valueMembers, Quoted.text_eq_ok_iff.mpr hkey, value_of_means first,
      valueMembers_of_means rest]
    rfl

end

/-- **Reading a shape** as a value. -/
theorem value_eq_ok_iff {node : Node} {room : Nat} {v : Value} :
    node.value room = .ok v ↔ Means room node v := ⟨means_of_value, value_of_means⟩

theorem valueMembers_eq_ok_iff {members : List (Quoted × Node)} {room : Nat}
    {pairs : List (String × Value)} :
    valueMembers room members = .ok pairs ↔ MeansMembers room members pairs :=
  ⟨means_of_valueMembers, valueMembers_of_means⟩

mutual

/-- What means a value has no fault in it. -/
theorem skip_of_means : ∀ {room : Nat} {node : Node} {v : Value},
    Means room node v → node.skip = .ok ()
  | _, _, _, .null | _, _, _, .bool _ | _, _, _, .int _ | _, _, _, .float _ => rfl
  | _, _, _, .string h => checkEnd_eq_ok.mpr h.cut
  | _, _, _, .array h => skip_array.mpr ⟨skip_of_meansItems h, rfl⟩
  | _, _, _, .object h => skip_object.mpr ⟨skip_of_meansMembers h, rfl⟩

/-- `skip_of_means`, item by item. -/
theorem skip_of_meansItems : ∀ {room : Nat} {nodes : List Node} {values : List Value},
    MeansItems room nodes values → ∀ node ∈ nodes, node.skip = .ok ()
  | _, _, _, .nil => List.forall_mem_nil _
  | _, _, _, .cons first rest =>
    List.forall_mem_cons.mpr ⟨skip_of_means first, skip_of_meansItems rest⟩

/-- `skip_of_means`, member by member. -/
theorem skip_of_meansMembers : ∀ {room : Nat} {members : List (Quoted × Node)}
    {pairs : List (String × Value)}, MeansMembers room members pairs →
    ∀ member ∈ members, member.1.cut = none ∧ member.2.skip = .ok ()
  | _, _, _, .nil => List.forall_mem_nil _
  | _, _, _, .cons hkey first rest => List.forall_mem_cons.mpr
    ⟨⟨hkey.cut, skip_of_means first⟩, skip_of_meansMembers rest⟩

end

end Node

end ArchFacts.Json
