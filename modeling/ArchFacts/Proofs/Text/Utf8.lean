import ArchFacts.Text.Utf8

/-!
# What is encoded is decoded

Every text is read back from its bytes (`decode_encode`), and bytes that are not those of a text are
refused (`encode_of_decode`). A line feed is one byte, and this byte stands in no other character
(`lineFeed_notMem_encode`), so the bytes of a text can be cut into lines before they are decoded.
The bytes of a character begin with one that stands in no other character behind the first place,
so bytes are a text exactly if they are one between two texts (`decode_between`).
-/

namespace ArchFacts.Text.Utf8

theorem encode_cons (c : Char) (cs : List Char) :
    encode (c :: cs) = String.utf8EncodeChar c ++ encode cs :=
  List.flatMap_cons

theorem encode_append (cs ds : List Char) : encode (cs ++ ds) = encode cs ++ encode ds :=
  List.flatMap_append

theorem toNat_ofNat {n : Nat} (h : n < 256) : (UInt8.ofNat n).toNat = n := by
  rw [UInt8.toNat_ofNat']
  exact Nat.mod_eq_of_lt h

/-- The low six bits of a number, as a continuation byte holds them. -/
theorem continuation?_ofNat (n : Nat) : continuation? (UInt8.ofNat (n % 64 + 0x80)) = some (n % 64) := by
  have hn : n % 64 + 0x80 < 256 := by omega
  rw [continuation?, toNat_ofNat hn, if_pos (by omega)]
  simp

theorem scalar?_toNat {c : Char} {least : Nat} (h : least ≤ c.toNat) :
    scalar? least c.toNat = some c := by
  rw [scalar?, dif_pos ⟨h, c.valid⟩]
  rfl

theorem decode_one {a : UInt8} (bytes : List UInt8) (ha : a.toNat < 0x80) :
    decode (a :: bytes) = (decode bytes).map (Char.ofNat a.toNat :: ·) := by
  rw [decode.eq_def]
  exact if_pos ha

theorem decode_two {a b : UInt8} {x : Nat} {c : Char} (bytes : List UInt8)
    (ha : a.toNat / 16 = 0xC ∨ a.toNat / 16 = 0xD) (hb : continuation? b = some x)
    (hc : scalar? 0x80 ((a.toNat - 0xC0) * 64 + x) = some c) :
    decode (a :: b :: bytes) = (decode bytes).map (c :: ·) := by
  have hlarge : ¬a.toNat < 0x80 := by omega
  rw [decode.eq_def]
  rcases ha with ha | ha
  · simp [hlarge, ha, hb, hc]
  · simp [hlarge, ha, hb, hc]

theorem decode_three {a b b₂ : UInt8} {x y : Nat} {c : Char} (bytes : List UInt8)
    (ha : a.toNat / 16 = 0xE) (hb : continuation? b = some x) (hb₂ : continuation? b₂ = some y)
    (hc : scalar? 0x800 (((a.toNat - 0xE0) * 64 + x) * 64 + y) = some c) :
    decode (a :: b :: b₂ :: bytes) = (decode bytes).map (c :: ·) := by
  have hlarge : ¬a.toNat < 0x80 := by omega
  rw [decode.eq_def]
  simp [hlarge, ha, hb, hb₂, hc]

theorem decode_four {a b b₂ b₃ : UInt8} {x y z : Nat} {c : Char} (bytes : List UInt8)
    (ha : a.toNat / 16 = 0xF) (hb : continuation? b = some x) (hb₂ : continuation? b₂ = some y)
    (hb₃ : continuation? b₃ = some z)
    (hc : scalar? 0x10000 ((((a.toNat - 0xF0) * 64 + x) * 64 + y) * 64 + z) = some c) :
    decode (a :: b :: b₂ :: b₃ :: bytes) = (decode bytes).map (c :: ·) := by
  have hlarge : ¬a.toNat < 0x80 := by omega
  rw [decode.eq_def]
  simp [hlarge, ha, hb, hb₂, hb₃, hc]

/-- The bytes of a character by the size of its number. -/
theorem encodeChar_eq (c : Char) :
    String.utf8EncodeChar c =
      if c.toNat ≤ 0x7F then [UInt8.ofNat c.toNat]
      else if c.toNat ≤ 0x7FF then
        [UInt8.ofNat (c.toNat / 64 % 32 + 0xC0), UInt8.ofNat (c.toNat % 64 + 0x80)]
      else if c.toNat ≤ 0xFFFF then
        [UInt8.ofNat (c.toNat / 4096 % 16 + 0xE0), UInt8.ofNat (c.toNat / 64 % 64 + 0x80),
          UInt8.ofNat (c.toNat % 64 + 0x80)]
      else
        [UInt8.ofNat (c.toNat / 262144 % 8 + 0xF0), UInt8.ofNat (c.toNat / 4096 % 64 + 0x80),
          UInt8.ofNat (c.toNat / 64 % 64 + 0x80), UInt8.ofNat (c.toNat % 64 + 0x80)] :=
  rfl

theorem toNat_lt (c : Char) : c.toNat < 0x110000 := by
  have hc := c.valid
  unfold UInt32.isValidChar Nat.isValidChar at hc
  change c.val.toNat < 0x110000
  omega

/-- A character is read back from its bytes, in front of any others. -/
theorem decode_encodeChar (c : Char) (bytes : List UInt8) :
    decode (String.utf8EncodeChar c ++ bytes) = (decode bytes).map (c :: ·) := by
  have hvalid := toNat_lt c
  rw [encodeChar_eq]
  split
  case isTrue h =>
    have ha := toNat_ofNat (n := c.toNat) (by omega)
    have hone := decode_one bytes (ha ▸ Nat.lt_succ_of_le h)
    rw [ha, Char.ofNat_toNat] at hone
    exact hone
  split
  case isTrue h =>
    have ha := toNat_ofNat (n := c.toNat / 64 % 32 + 0xC0) (by omega)
    refine decode_two bytes ?_ (continuation?_ofNat c.toNat) ?_
    · omega
    · have hcode : (c.toNat / 64 % 32 + 0xC0 - 0xC0) * 64 + c.toNat % 64 = c.toNat := by omega
      rw [ha, hcode]
      exact scalar?_toNat (by omega)
  split
  case isTrue h =>
    have ha := toNat_ofNat (n := c.toNat / 4096 % 16 + 0xE0) (by omega)
    refine decode_three bytes ?_ (continuation?_ofNat _) (continuation?_ofNat c.toNat) ?_
    · omega
    · have hcode : ((c.toNat / 4096 % 16 + 0xE0 - 0xE0) * 64 + c.toNat / 64 % 64) * 64
          + c.toNat % 64 = c.toNat := by omega
      rw [ha, hcode]
      exact scalar?_toNat (by omega)
  case isFalse h =>
    have ha := toNat_ofNat (n := c.toNat / 262144 % 8 + 0xF0) (by omega)
    refine decode_four bytes ?_ (continuation?_ofNat _) (continuation?_ofNat _)
      (continuation?_ofNat c.toNat) ?_
    · omega
    · have hcode : (((c.toNat / 262144 % 8 + 0xF0 - 0xF0) * 64 + c.toNat / 4096 % 64) * 64
          + c.toNat / 64 % 64) * 64 + c.toNat % 64 = c.toNat := by omega
      rw [ha, hcode]
      exact scalar?_toNat (by omega)

/-- A text is read back from its bytes, in front of any others. -/
theorem decode_append_encode (cs : List Char) (bytes : List UInt8) :
    decode (encode cs ++ bytes) = (decode bytes).map (cs ++ ·) := by
  induction cs with
  | nil => exact Option.map_id'.symm
  | cons c cs ih =>
    rw [encode_cons, List.append_assoc, decode_encodeChar, ih, Option.map_map]
    rfl

/-- **Reading back**: the bytes of a text are the UTF-8 form of this text. -/
theorem decode_encode (cs : List Char) : decode (encode cs) = some cs := by
  have h := decode_append_encode cs []
  rwa [List.append_nil, decode, Option.map_some, List.append_nil] at h

/-- A byte of a character is the character itself or no character of its own. -/
theorem toNat_of_mem_encodeChar {c : Char} {b : UInt8} (h : b ∈ String.utf8EncodeChar c) :
    b.toNat = c.toNat ∨ 0x80 ≤ b.toNat := by
  have hlarge (n : Nat) (hlow : 0x80 ≤ n) (hhigh : n < 256) (hb : b = UInt8.ofNat n) :
      b.toNat = c.toNat ∨ 0x80 ≤ b.toNat := by
    rw [hb, toNat_ofNat hhigh]
    exact Or.inr hlow
  rw [encodeChar_eq] at h
  -- only the form of one byte has a byte below `0x80`
  split at h
  case isTrue hc =>
    rw [List.mem_singleton.mp h, toNat_ofNat (by omega)]
    exact Or.inl rfl
  split at h
  case isTrue =>
    simp only [List.mem_cons, List.not_mem_nil, or_false] at h
    rcases h with h | h <;> exact hlarge _ (by omega) (by omega) h
  split at h
  case isTrue =>
    simp only [List.mem_cons, List.not_mem_nil, or_false] at h
    rcases h with h | h | h <;> exact hlarge _ (by omega) (by omega) h
  case isFalse =>
    simp only [List.mem_cons, List.not_mem_nil, or_false] at h
    rcases h with h | h | h | h <;> exact hlarge _ (by omega) (by omega) h

/-- No byte of a text is a line feed, unless one of its characters is. -/
theorem lineFeed_notMem_encode {cs : List Char} (h : '\n' ∉ cs) : (10 : UInt8) ∉ encode cs := by
  intro hmem
  obtain ⟨c, hc, hb⟩ := List.mem_flatMap.mp hmem
  rcases toNat_of_mem_encodeChar hb with hcode | hlarge
  · have hfeed : c = '\n' := by
      rw [← Char.ofNat_toNat c, ← hcode]
      rfl
    exact h (hfeed ▸ hc)
  · exact absurd hlarge (by decide)

/-! ### Only what is encoded is decoded -/

theorem continuation?_eq_some {b : UInt8} {x : Nat} (h : continuation? b = some x) :
    x < 64 ∧ b = UInt8.ofNat (x + 0x80) := by
  unfold continuation? at h
  split at h
  case isTrue hrange =>
    obtain rfl := Option.some.inj h
    have hcode : b.toNat - 0x80 + 0x80 = b.toNat := by omega
    exact ⟨by omega, by rw [hcode, UInt8.ofNat_toNat]⟩
  case isFalse => cases h

theorem scalar?_eq_some {least code : Nat} {c : Char} (h : scalar? least code = some c) :
    c.toNat = code ∧ least ≤ code := by
  by_cases hcode : least ≤ code ∧ code.isValidChar
  · obtain rfl := Option.some.inj ((dif_pos hcode).symm.trans h)
    refine ⟨?_, hcode.1⟩
    change UInt32.toNat (UInt32.ofNatLT code _) = code
    exact UInt32.toNat_ofNatLT
  · cases (dif_neg hcode).symm.trans h

theorem encodeChar_one {a : UInt8} (ha : a.toNat < 0x80) :
    String.utf8EncodeChar (Char.ofNat a.toNat) = [a] := by
  have hcode : (Char.ofNat a.toNat).toNat = a.toNat := by
    have hvalid : a.toNat.isValidChar := Or.inl (by omega)
    rw [Char.ofNat, dif_pos hvalid]
    exact UInt32.toNat_ofNatLT
  rw [encodeChar_eq, hcode, if_pos (by omega), UInt8.ofNat_toNat]

theorem encodeChar_two {a b : UInt8} {x : Nat} {c : Char}
    (ha : a.toNat / 16 = 0xC ∨ a.toNat / 16 = 0xD) (hb : continuation? b = some x)
    (hc : scalar? 0x80 ((a.toNat - 0xC0) * 64 + x) = some c) :
    String.utf8EncodeChar c = [a, b] := by
  obtain ⟨hx, rfl⟩ := continuation?_eq_some hb
  obtain ⟨hcode, hleast⟩ := scalar?_eq_some hc
  have hfirst : c.toNat / 64 % 32 + 0xC0 = a.toNat := by omega
  have hsecond : c.toNat % 64 = x := by omega
  rw [encodeChar_eq, if_neg (by omega), if_pos (by omega), hfirst, hsecond, UInt8.ofNat_toNat]

theorem encodeChar_three {a b b₂ : UInt8} {x y : Nat} {c : Char}
    (ha : a.toNat / 16 = 0xE) (hb : continuation? b = some x) (hb₂ : continuation? b₂ = some y)
    (hc : scalar? 0x800 (((a.toNat - 0xE0) * 64 + x) * 64 + y) = some c) :
    String.utf8EncodeChar c = [a, b, b₂] := by
  obtain ⟨hx, rfl⟩ := continuation?_eq_some hb
  obtain ⟨hy, rfl⟩ := continuation?_eq_some hb₂
  obtain ⟨hcode, hleast⟩ := scalar?_eq_some hc
  have hfirst : c.toNat / 4096 % 16 + 0xE0 = a.toNat := by omega
  have hsecond : c.toNat / 64 % 64 = x := by omega
  have hthird : c.toNat % 64 = y := by omega
  rw [encodeChar_eq, if_neg (by omega), if_neg (by omega), if_pos (by omega), hfirst, hsecond,
    hthird, UInt8.ofNat_toNat]

theorem encodeChar_four {a b b₂ b₃ : UInt8} {x y z : Nat} {c : Char}
    (ha : a.toNat / 16 = 0xF) (hb : continuation? b = some x) (hb₂ : continuation? b₂ = some y)
    (hb₃ : continuation? b₃ = some z)
    (hc : scalar? 0x10000 ((((a.toNat - 0xF0) * 64 + x) * 64 + y) * 64 + z) = some c) :
    String.utf8EncodeChar c = [a, b, b₂, b₃] := by
  obtain ⟨hx, rfl⟩ := continuation?_eq_some hb
  obtain ⟨hy, rfl⟩ := continuation?_eq_some hb₂
  obtain ⟨hz, rfl⟩ := continuation?_eq_some hb₃
  obtain ⟨hcode, hleast⟩ := scalar?_eq_some hc
  have hvalid := toNat_lt c
  have hfirst : c.toNat / 262144 % 8 + 0xF0 = a.toNat := by omega
  have hsecond : c.toNat / 4096 % 64 = x := by omega
  have hthird : c.toNat / 64 % 64 = y := by omega
  have hfourth : c.toNat % 64 = z := by omega
  rw [encodeChar_eq, if_neg (by omega), if_neg (by omega), if_neg (by omega), hfirst, hsecond,
    hthird, hfourth, UInt8.ofNat_toNat]

/-- **Nothing else is text**: bytes that are decoded are the UTF-8 form of what they are decoded
to. -/
theorem encode_of_decode {bytes : List UInt8} {cs : List Char} (h : decode bytes = some cs) :
    encode cs = bytes := by
  fun_induction decode bytes generalizing cs with
  | case1 =>
    obtain rfl := Option.some.inj h
    rfl
  | case2 a rest ha ih =>
    obtain ⟨cs, hrest, rfl⟩ := Option.map_eq_some_iff.mp h
    rw [encode_cons, encodeChar_one ha, ih hrest]
    rfl
  | case3 a _ b rest ha ih =>
    simp only [Option.bind_eq_bind, Option.bind_eq_some_iff, Option.map_eq_some_iff] at h
    obtain ⟨x, hb, c, hc, cs, hrest, rfl⟩ := h
    rw [encode_cons, encodeChar_two (Or.inl ha) hb hc, ih hrest]
    rfl
  | case4 a _ b rest ha ih =>
    simp only [Option.bind_eq_bind, Option.bind_eq_some_iff, Option.map_eq_some_iff] at h
    obtain ⟨x, hb, c, hc, cs, hrest, rfl⟩ := h
    rw [encode_cons, encodeChar_two (Or.inr ha) hb hc, ih hrest]
    rfl
  | case5 a _ b b₂ rest ha ih =>
    simp only [Option.bind_eq_bind, Option.bind_eq_some_iff, Option.map_eq_some_iff] at h
    obtain ⟨x, hb, y, hb₂, c, hc, cs, hrest, rfl⟩ := h
    rw [encode_cons, encodeChar_three ha hb hb₂ hc, ih hrest]
    rfl
  | case6 a _ b b₂ b₃ rest ha ih =>
    simp only [Option.bind_eq_bind, Option.bind_eq_some_iff, Option.map_eq_some_iff] at h
    obtain ⟨x, hb, y, hb₂, z, hb₃, c, hc, cs, hrest, rfl⟩ := h
    rw [encode_cons, encodeChar_four ha hb hb₂ hb₃ hc, ih hrest]
    rfl
  | case7 => cases h

theorem decode_eq_some_iff {bytes : List UInt8} {cs : List Char} :
    decode bytes = some cs ↔ encode cs = bytes :=
  ⟨encode_of_decode, fun h => h ▸ decode_encode cs⟩

theorem decode_eq_none_iff {bytes : List UInt8} :
    decode bytes = none ↔ ∀ cs, encode cs ≠ bytes := by
  simp only [Option.eq_none_iff_forall_ne_some, Ne, decode_eq_some_iff]

/-! ### Text beside text -/

theorem continuation?_eq_none {n : Nat} (h : n < 0x80 ∨ 0xC0 ≤ n) (hn : n < 256) :
    continuation? (UInt8.ofNat n) = none := by
  rw [continuation?, toNat_ofNat hn, if_neg (by omega)]

/-- Among the bytes of a character all but the first continue it. -/
theorem encodeChar_eq_cons (c : Char) :
    ∃ b tail, String.utf8EncodeChar c = b :: tail ∧ continuation? b = none ∧
      ∀ t ∈ tail, continuation? t ≠ none := by
  have hmore (n : Nat) : continuation? (UInt8.ofNat (n % 64 + 0x80)) ≠ none := by
    rw [continuation?_ofNat]
    exact Option.some_ne_none _
  rw [encodeChar_eq]
  split
  case isTrue h => exact ⟨_, _, rfl, continuation?_eq_none (by omega) (by omega), List.forall_mem_nil _⟩
  split
  case isTrue =>
    refine ⟨_, _, rfl, continuation?_eq_none (by omega) (by omega), ?_⟩
    exact List.forall_mem_singleton.mpr (hmore _)
  split
  case isTrue =>
    refine ⟨_, _, rfl, continuation?_eq_none (by omega) (by omega), ?_⟩
    exact List.forall_mem_cons.mpr ⟨hmore _, List.forall_mem_singleton.mpr (hmore _)⟩
  case isFalse =>
    refine ⟨_, _, rfl, continuation?_eq_none (by omega) (by omega), ?_⟩
    exact List.forall_mem_cons.mpr
      ⟨hmore _, List.forall_mem_cons.mpr ⟨hmore _, List.forall_mem_singleton.mpr (hmore _)⟩⟩

/-- What stands before a text in a text is a text: no character begins inside another one. -/
theorem exists_encode_of_append {cs ds : List Char} {bytes : List UInt8}
    (h : encode cs = bytes ++ encode ds) : ∃ before, encode before = bytes := by
  induction cs generalizing bytes with
  | nil => exact ⟨[], (List.append_eq_nil_iff.mp h.symm).1.symm⟩
  | cons c cs ih =>
    rw [encode_cons] at h
    rcases List.append_eq_append_iff.mp h with ⟨rest, rfl, hrest⟩ | ⟨rest, hchar, hrest⟩
    · obtain ⟨before, rfl⟩ := ih hrest
      exact ⟨c :: before, encode_cons c before⟩
    · cases bytes with
      | nil => exact ⟨[], rfl⟩
      | cons b bytes =>
        obtain ⟨first, tail, hbytes, -, htail⟩ := encodeChar_eq_cons c
        cases rest with
        | nil => exact ⟨[c], by rw [encode_cons, hchar, List.append_nil]; exact List.append_nil _⟩
        | cons t rest =>
          -- a byte that continues the character cannot be the first one of the second text
          rw [hchar, List.cons_append] at hbytes
          have hmem : t ∈ tail := (List.cons.inj hbytes).2 ▸ List.mem_append_right bytes (by simp)
          cases ds with
          | nil => cases hrest
          | cons d ds =>
            obtain ⟨e, more, hd, he, -⟩ := encodeChar_eq_cons d
            rw [encode_cons, hd] at hrest
            exact absurd ((List.cons.inj hrest).1 ▸ he) (htail t hmem)

/-- **Text around bytes** neither makes them text nor keeps them from being text. -/
theorem decode_between (before after : List Char) (bytes : List UInt8) :
    decode (encode before ++ bytes ++ encode after) =
      (decode bytes).map fun cs => before ++ cs ++ after := by
  cases hbytes : decode bytes with
  | some cs =>
    rw [← encode_of_decode hbytes, ← encode_append, ← encode_append, decode_encode]
    rfl
  | none =>
    rw [Option.map_none, decode_eq_none_iff]
    intro cs hcs
    obtain ⟨front, hfront⟩ := exists_encode_of_append hcs
    have hdecode := congrArg decode hfront
    rw [decode_encode, decode_append_encode, hbytes] at hdecode
    cases hdecode

end ArchFacts.Text.Utf8
