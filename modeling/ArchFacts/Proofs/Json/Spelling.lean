import ArchFacts.Proofs.Json.Proper

/-!
# The tokens of a shape

A shape without a fault in it comes from one row of tokens only (`Node.spelling`). The tokens that
have been read before some point are known from what is open there and what is awaited
(`Frame.opened`, `Awaited.behind`). Reading on moves them from the tokens to come to those that were
read, and neither adds nor loses any (`Node.spelling_of_read`), unless there is a fault, which stays in
the shape (`Node.skip_of_close`).
-/

namespace ArchFacts.Json

namespace Node

mutual

/-- The tokens of a node. -/
def spelling : Node → List Token
  | .null => [.null]
  | .bool b => [.bool b]
  | .string s => [.string s]
  | .number n => [.number n]
  | .tooLarge => [.tooLarge]
  | .cutNumber => [.cutNumber]
  | .broken f => [.bad f]
  | .array items _ => .openArray :: (commaTokens (spellingItems items) ++ [.closeArray])
  | .object members _ => .openObject :: (commaTokens (spellingMembers members) ++ [.closeObject])

/-- The tokens of items. -/
def spellingItems : List Node → List (List Token)
  | [] => []
  | node :: rest => node.spelling :: spellingItems rest

/-- The tokens of members. -/
def spellingMembers : List (Quoted × Node) → List (List Token)
  | [] => []
  | (key, node) :: rest => (.string key :: .colon :: node.spelling) :: spellingMembers rest

end

variable {items : List Node} {members : List (Quoted × Node)} {cut : Option Fault}

theorem spellingItems_concat (items : List Node) (node : Node) :
    spellingItems (items ++ [node]) = spellingItems items ++ [node.spelling] := by
  induction items with
  | nil => rfl
  | cons first items ih => exact congrArg (first.spelling :: ·) ih

theorem spellingMembers_concat (members : List (Quoted × Node)) (key : Quoted) (node : Node) :
    spellingMembers (members ++ [(key, node)]) =
      spellingMembers members ++ [.string key :: .colon :: node.spelling] := by
  induction members with
  | nil => rfl
  | cons first members ih => exact congrArg (_ :: ·) ih

/-! ### Shapes without a fault -/

theorem checkEnd_eq_ok : checkEnd cut = .ok () ↔ cut = none := by
  cases cut with
  | none => exact ⟨fun _ => rfl, fun _ => rfl⟩
  | some f => exact ⟨nofun, nofun⟩

theorem skipItems_eq_ok : skipItems items = .ok () ↔ ∀ node ∈ items, node.skip = .ok () := by
  induction items with
  | nil => exact ⟨fun _ => List.forall_mem_nil _, fun _ => rfl⟩
  | cons node items ih =>
    rw [skipItems, List.forall_mem_cons, ← ih, bind_eq_ok]
    exact ⟨fun ⟨_, h⟩ => h, fun h => ⟨(), h⟩⟩

theorem skipMembers_eq_ok : skipMembers members = .ok () ↔
    ∀ member ∈ members, member.1.cut = none ∧ member.2.skip = .ok () := by
  induction members with
  | nil => exact ⟨fun _ => List.forall_mem_nil _, fun _ => rfl⟩
  | cons member members ih =>
    obtain ⟨key, node⟩ := member
    rw [skipMembers, List.forall_mem_cons, ← ih]
    constructor
    · intro h
      obtain ⟨⟨⟩, hend, h⟩ := bind_eq_ok.mp h
      obtain ⟨⟨⟩, hnode, hrest⟩ := bind_eq_ok.mp h
      exact ⟨⟨checkEnd_eq_ok.mp hend, hnode⟩, hrest⟩
    · rintro ⟨⟨hkey, hnode⟩, hrest⟩
      exact bind_eq_ok.mpr ⟨(), checkEnd_eq_ok.mpr hkey, bind_eq_ok.mpr ⟨(), hnode, hrest⟩⟩

theorem skip_array : (Node.array items cut).skip = .ok () ↔
    (∀ node ∈ items, node.skip = .ok ()) ∧ cut = none := by
  rw [skip, bind_eq_ok, ← skipItems_eq_ok, ← checkEnd_eq_ok]
  exact ⟨fun ⟨_, h⟩ => h, fun h => ⟨(), h⟩⟩

theorem skip_object : (Node.object members cut).skip = .ok () ↔
    (∀ member ∈ members, member.1.cut = none ∧ member.2.skip = .ok ()) ∧ cut = none := by
  rw [skip, bind_eq_ok, ← skipMembers_eq_ok, ← checkEnd_eq_ok]
  exact ⟨fun ⟨_, h⟩ => h, fun h => ⟨(), h⟩⟩

end Node

/-! ### What has been read -/

theorem commaTokens_concat (tss : List (List Token)) (ts : List Token) :
    commaTokens (tss ++ [ts]) = tss.flatMap (· ++ [.comma]) ++ ts := by
  cases tss with
  | nil => exact List.append_nil ts
  | cons first tss =>
    rw [List.cons_append, commaTokens]
    induction tss generalizing first with
    | nil => simp
    | cons second tss ih => simpa using ih second

/-- The tokens of a frame that is open. -/
def Frame.opened : Frame → List Token
  | .array items => .openArray :: (Node.spellingItems items.reverse).flatMap (· ++ [.comma])
  | .object members => .openObject :: (Node.spellingMembers members.reverse).flatMap (· ++ [.comma])
  | .member members key =>
    .openObject :: ((Node.spellingMembers members.reverse).flatMap (· ++ [.comma]) ++
      [.string key, .colon])

/-- The tokens of all frames that are open, the outermost first. -/
def openedAll : List Frame → List Token
  | [] => []
  | frame :: stack => openedAll stack ++ frame.opened

/-- The tokens between the open frames and what is awaited. -/
def Awaited.behind : Awaited → List Token
  | .colon name => [.string name]
  | .separator node => node.spelling
  | _ => []

/-- The frames that may be open around another one: those that wait for a value. -/
def Frame.Waits : Frame → Prop
  | .object _ => False
  | _ => True

/-- The frames that may be open where something is awaited. -/
def Awaited.Fits : Awaited → List Frame → Prop
  | .value, stack | .separator _, stack => ∀ frame ∈ stack, frame.Waits
  | .item, stack => (∃ rest, stack = .array [] :: rest) ∧ ∀ frame ∈ stack, frame.Waits
  | .firstKey, stack => ∃ rest, stack = .object [] :: rest ∧ ∀ frame ∈ rest, frame.Waits
  | .key, stack | .colon _, stack =>
    ∃ members rest, stack = .object members :: rest ∧ ∀ frame ∈ rest, frame.Waits

namespace Node

variable {stack : List Frame} {node result : Node} {ts rest : List Token}

/-- A fault in a value stays in those around it. -/
theorem skip_of_close (hstack : ∀ frame ∈ stack, frame.Waits)
    (h : (close stack node).skip = .ok ()) : node.skip = .ok () := by
  fun_induction close stack node with
  | case1 => exact h
  | case2 items stack node ih =>
    obtain ⟨-, hstack⟩ := List.forall_mem_cons.mp hstack
    obtain ⟨hitems, -⟩ := skip_array.mp (ih hstack h)
    exact hitems node (List.mem_reverse.mpr List.mem_cons_self)
  | case3 => exact (hstack _ List.mem_cons_self).elim
  | case4 members key stack node ih =>
    obtain ⟨-, hstack⟩ := List.forall_mem_cons.mp hstack
    obtain ⟨hmembers, -⟩ := skip_object.mp (ih hstack h)
    exact (hmembers (key, node) (List.mem_reverse.mpr List.mem_cons_self)).2

theorem skip_broken {f : Fault} : (Node.broken f).skip ≠ .ok () := by
  rw [skip]
  nofun

theorem skip_arrayCut (f : Fault) : (Node.array items (some f)).skip ≠ .ok () := fun h =>
  nomatch (skip_array.mp h).2

theorem skip_objectCut (f : Fault) : (Node.object members (some f)).skip ≠ .ok () := fun h =>
  nomatch (skip_object.mp h).2

/-- An object whose last member has no value. -/
theorem skip_objectBroken (key : Quoted) (f : Fault) :
    (Node.object ((key, .broken f) :: members).reverse none).skip ≠ .ok () := fun h =>
  skip_broken ((skip_object.mp h).1 (key, .broken f) (List.mem_reverse.mpr List.mem_cons_self)).2

theorem skip_ofToken {token : Token} (h : ¬isScalar token = true) :
    (ofToken token).skip ≠ .ok () := by
  intro hskip
  cases token with
  | null | bool | number | tooLarge => exact h rfl
  | string s => exact h (by rw [isScalar, checkEnd_eq_ok.mp hskip]; rfl)
  | _ => cases hskip

theorem spelling_ofToken {token : Token} (h : isScalar token = true) :
    (ofToken token).spelling = [token] := by
  cases token <;> first | rfl | cases h

/-- **Reading on** keeps the tokens, those that were read and those to come, if there is no fault. -/
theorem spelling_of_read {awaited : Awaited} (hfits : awaited.Fits stack)
    (hread : read awaited stack ts = (result, rest)) (hskip : result.skip = .ok ()) :
    openedAll stack ++ (awaited.behind ++ ts) = result.spelling ++ rest := by
  have hclose {stack : List Frame} {node : Node} {tokens : List Token}
      (hstack : ∀ frame ∈ stack, frame.Waits) (hnode : node.skip ≠ .ok ())
      (h : (close stack node, tokens) = (result, rest)) : False := by
    obtain ⟨rfl, -⟩ := Prod.mk.inj h
    exact hnode (skip_of_close hstack hskip)
  have hopen {frame : Frame} {stack : List Frame} (hframe : frame.Waits)
      (hstack : ∀ frame ∈ stack, frame.Waits) : ∀ f ∈ frame :: stack, f.Waits :=
    List.forall_mem_cons.mpr ⟨hframe, hstack⟩
  fun_induction read awaited stack ts with
  | case1 =>
    obtain ⟨rfl, rfl⟩ := Prod.mk.inj hread
    rfl
  -- a value: one that is missing, broken or a scalar, and what opens an array or an object
  | case2 => exact (hclose hfits skip_broken hread).elim
  | case6 _ _ _ _ _ hscalar => exact (hclose hfits (skip_ofToken hscalar) hread).elim
  | case5 stack token ts _ _ hscalar ih =>
    rw [← ih hfits hread]
    simp [Awaited.behind, spelling_ofToken hscalar]
  | case3 stack ts ih =>
    rw [← ih ⟨⟨stack, rfl⟩, List.forall_mem_cons.mpr ⟨trivial, hfits⟩⟩ hread]
    simp [Awaited.behind, openedAll, Frame.opened, spellingItems]
  | case4 stack ts ih =>
    rw [← ih ⟨stack, rfl, hfits⟩ hread]
    simp [Awaited.behind, openedAll, Frame.opened, spellingMembers]
  -- in an array before its first item
  | case7 =>
    exact (hclose (List.forall_mem_cons.mp hfits.2).2 (skip_arrayCut _) hread).elim
  | case8 items stack ts ih =>
    obtain ⟨⟨_, heq⟩, hwaits⟩ := hfits
    obtain rfl := Frame.array.inj (List.cons.inj heq).1
    rw [← ih (List.forall_mem_cons.mp hwaits).2 hread]
    simp [Awaited.behind, openedAll, Frame.opened, spelling, spellingItems, commaTokens]
  | case9 stack ts ih =>
    rw [← ih ⟨⟨stack, rfl⟩, List.forall_mem_cons.mpr ⟨trivial, hfits.2⟩⟩ hread]
    simp [Awaited.behind, openedAll, Frame.opened, spellingItems]
  | case10 stack ts ih =>
    rw [← ih ⟨stack, rfl, hfits.2⟩ hread]
    simp [Awaited.behind, openedAll, Frame.opened, spellingMembers]
  | case11 stack token ts _ _ _ hscalar ih =>
    rw [← ih hfits.2 hread]
    simp [Awaited.behind, spelling_ofToken hscalar]
  | case12 _ _ _ _ _ _ hscalar => exact (hclose hfits.2 (skip_ofToken hscalar) hread).elim
  -- in an array behind an item
  | case13 | case16 =>
    exact (hclose (List.forall_mem_cons.mp hfits).2 (skip_arrayCut _) hread).elim
  | case14 node items stack ts ih =>
    rw [← ih (List.forall_mem_cons.mpr ⟨trivial, (List.forall_mem_cons.mp hfits).2⟩) hread]
    simp [Awaited.behind, openedAll, Frame.opened, spellingItems_concat]
  | case15 node items stack ts ih =>
    rw [← ih (List.forall_mem_cons.mp hfits).2 hread]
    simp [Awaited.behind, openedAll, Frame.opened, spelling, spellingItems_concat, commaTokens_concat]
  -- in an object behind a member
  | case17 | case20 =>
    exact (hclose (List.forall_mem_cons.mp hfits).2 (skip_objectCut _) hread).elim
  | case18 node members key stack ts ih =>
    rw [← ih ⟨_, _, rfl, (List.forall_mem_cons.mp hfits).2⟩ hread]
    simp [Awaited.behind, openedAll, Frame.opened, spellingMembers_concat]
  | case19 node members key stack ts ih =>
    rw [← ih (List.forall_mem_cons.mp hfits).2 hread]
    simp [Awaited.behind, openedAll, Frame.opened, spelling, spellingMembers_concat,
      commaTokens_concat]
  -- before a key, at a key, and at the colon behind it
  | case21 members stack ts ih =>
    obtain ⟨_, heq, hwaits⟩ := hfits
    obtain ⟨hempty, rfl⟩ := List.cons.inj heq
    obtain rfl := Frame.object.inj hempty
    rw [← ih hwaits hread]
    simp [Awaited.behind, openedAll, Frame.opened, spelling, spellingMembers, commaTokens]
  | case22 stack key ts ih =>
    obtain ⟨_, rfl, hwaits⟩ := hfits
    rw [← ih ⟨_, _, rfl, hwaits⟩ hread]
    simp [Awaited.behind]
  | case23 stack key ts ih =>
    rw [← ih hfits hread]
    simp [Awaited.behind]
  | case24 | case26 =>
    obtain ⟨_, heq, hwaits⟩ := hfits
    obtain ⟨-, rfl⟩ := List.cons.inj heq
    exact (hclose hwaits (skip_objectCut _) hread).elim
  | case25 | case27 =>
    obtain ⟨_, _, heq, hwaits⟩ := hfits
    obtain ⟨-, rfl⟩ := List.cons.inj heq
    exact (hclose hwaits (skip_objectCut _) hread).elim
  | case28 key members stack ts ih =>
    obtain ⟨_, _, heq, hwaits⟩ := hfits
    obtain ⟨-, rfl⟩ := List.cons.inj heq
    rw [← ih (List.forall_mem_cons.mpr ⟨trivial, hwaits⟩) hread]
    simp [Awaited.behind, openedAll, Frame.opened]
  | case29 | case30 =>
    obtain ⟨_, _, heq, hwaits⟩ := hfits
    obtain ⟨-, rfl⟩ := List.cons.inj heq
    exact (hclose hwaits (skip_objectBroken _ _) hread).elim
  -- nothing else can be awaited where it fits
  | case31 awaited stack tokens =>
    rename_i hfirstEnd hkeyEnd hfirst hkey _ hcolonEnd hcolon
    cases awaited with
    | value | separator => exact (hclose hfits skip_broken hread).elim
    | item => exact (hclose hfits.2 skip_broken hread).elim
    | firstKey =>
      obtain ⟨_, rfl, -⟩ := hfits
      cases tokens with
      | nil => exact (hfirstEnd _ _ rfl rfl rfl).elim
      | cons => exact (hfirst _ _ _ _ rfl rfl rfl).elim
    | key =>
      obtain ⟨_, _, rfl, -⟩ := hfits
      cases tokens with
      | nil => exact (hkeyEnd _ _ rfl rfl rfl).elim
      | cons => exact (hkey _ _ _ _ rfl rfl rfl).elim
    | colon =>
      obtain ⟨_, _, rfl, -⟩ := hfits
      cases tokens with
      | nil => exact (hcolonEnd _ _ _ rfl rfl rfl).elim
      | cons => exact (hcolon _ _ _ _ _ rfl rfl rfl).elim

/-- **A text that is read to its end** without a fault has the tokens of its shape. -/
theorem tokens_of_ofText {text : List Char} (hread : ofText text = (node, []))
    (hskip : node.skip = .ok ()) : tokens text = node.spelling := by
  have hfits : Awaited.value.Fits [] := List.forall_mem_nil _
  have hspelling := spelling_of_read hfits hread hskip
  rwa [List.append_nil] at hspelling

end Node

end ArchFacts.Json
