import ArchFacts.Proofs.Json.Shapes

/-!
# Values are read back

The compact text of a value without doubles, whose integers fit 64 bits and whose fields are in
order, spells a node that has just this value (`Value.spells_write`), and holds no line feed. So it
is parsed into the value, if arrays and objects stand inside one another as deep as a text may have
them (`parse_write`).
-/

namespace ArchFacts.Json

namespace Fields

variable {α : Type}

/-- A field behind all others in the order is set at the end. -/
theorem insert_of_lt {key : String} (value : α) {fields : Fields α}
    (h : ∀ field ∈ fields, field.1 < key) : insert key value fields = fields ++ [(key, value)] := by
  induction fields with
  | nil => rfl
  | cons field fields ih =>
    have hfield : field.1 < key := h field List.mem_cons_self
    have hafter : ¬key < field.1 := String.lt_asymm hfield
    have hne : key ≠ field.1 := by
      rintro rfl
      exact String.lt_irrefl _ hfield
    rw [insert, if_neg hafter, if_neg hne, ih fun f hf => h f (List.mem_cons_of_mem _ hf)]
    rfl

/-- Setting fields in their order gives the fields. -/
theorem ofPairs_of_ordered {fields : Fields α} (h : Ordered fields) : ofPairs fields = fields := by
  have hfold (done rest : Fields α) (h : Ordered (done ++ rest)) :
      rest.foldl (fun fields pair => insert pair.1 pair.2 fields) done = done ++ rest := by
    induction rest generalizing done with
    | nil => exact (List.append_nil done).symm
    | cons field rest ih =>
      have hlast : ∀ f ∈ done, f.1 < field.1 := fun f hf =>
        (List.pairwise_append.mp h).2.2 f hf field List.mem_cons_self
      rw [List.foldl_cons, insert_of_lt field.2 hlast, ih _ (by simpa using h)]
      simp
  exact hfold [] fields h

theorem mem_insert_self (key : String) (value : α) (fields : Fields α) :
    (key, value) ∈ insert key value fields := by
  induction fields with
  | nil => exact List.mem_singleton_self _
  | cons field fields ih =>
    rw [insert]
    split
    · exact List.mem_cons_self
    · split
      · exact List.mem_cons_self
      · exact List.mem_cons_of_mem _ ih

theorem mem_insert_of_ne {key : String} (value : α) {fields : Fields α} {field : String × α}
    (hne : field.1 ≠ key) (h : field ∈ fields) : field ∈ insert key value fields := by
  induction fields with
  | nil => cases h
  | cons first fields ih =>
    rw [insert]
    split
    · exact List.mem_cons_of_mem _ h
    · split
      · next hkey =>
        rcases List.mem_cons.mp h with rfl | h
        · exact absurd hkey.symm hne
        · exact List.mem_cons_of_mem _ h
      · rcases List.mem_cons.mp h with rfl | h
        · exact List.mem_cons_self
        · exact List.mem_cons_of_mem _ (ih h)

/-- A pair stays if none of its name is set after it. -/
theorem mem_ofPairs (before : List (String × α)) {pair : String × α} {after : List (String × α)}
    (h : pair.1 ∉ after.map Prod.fst) : pair ∈ ofPairs (before ++ pair :: after) := by
  have hfold (done : Fields α) (hdone : pair ∈ done) :
      pair ∈ after.foldl (fun fields pair => insert pair.1 pair.2 fields) done := by
    induction after generalizing done with
    | nil => exact hdone
    | cons other after ih =>
      obtain ⟨hne, hafter⟩ := not_or.mp (mt List.mem_cons.mpr h)
      exact ih hafter _ (mem_insert_of_ne other.2 hne hdone)
  rw [ofPairs, List.foldl_append, List.foldl_cons]
  exact hfold _ (mem_insert_self pair.1 pair.2 _)

end Fields

theorem Value.depth_le_depthFields {fields : List (String × Value)} {field : String × Value}
    (h : field ∈ fields) : field.2.depth ≤ Value.depthFields fields := by
  induction fields with
  | nil => cases h
  | cons first fields ih =>
    rcases List.mem_cons.mp h with rfl | h
    · exact Nat.le_max_left _ _
    · exact Nat.le_trans (ih h) (Nat.le_max_right _ _)

/-! ### Reading back -/

namespace Value

mutual

/-- The compact text of a value spells a node with this value. -/
theorem spells_write : ∀ v : Value, v.Whole → v.Proper →
    ∃ node, Spells v.write node ∧ ∀ room, v.depth ≤ room → node.value room = .ok v
  | .null, _, _ => ⟨_, spells_null, fun _ _ => rfl⟩
  | .bool true, _, _ => ⟨_, spells_true, fun _ _ => rfl⟩
  | .bool false, _, _ => ⟨_, spells_false, fun _ _ => rfl⟩
  | .int _, _, hproper => ⟨_, spells_intText hproper.1 hproper.2, fun _ _ => rfl⟩
  | .float _, hwhole, _ => hwhole.elim
  | .string s, _, _ => by
    refine ⟨_, spells_quote s, fun room _ => ?_⟩
    rw [Node.value, text_written]
    rfl
  | .array items, hwhole, hproper => by
    obtain ⟨nodes, hspells, hvalues⟩ := spells_writeItems items hwhole hproper
    refine ⟨_, spells_array hspells, fun room hroom => ?_⟩
    -- the array itself takes one level of the room
    cases room with
    | zero => exact absurd hroom (Nat.not_succ_le_zero _)
    | succ room =>
      rw [Node.value, hvalues room (Nat.le_of_succ_le_succ hroom)]
      rfl
  | .object fields, hwhole, hproper => by
    obtain ⟨members, hspells, hvalues⟩ := spells_writeFields fields hwhole hproper.2
    refine ⟨_, spells_object hspells, fun room hroom => ?_⟩
    cases room with
    | zero => exact absurd hroom (Nat.not_succ_le_zero _)
    | succ room =>
      -- setting the fields one by one does not change their order
      have hfields : ofPairs fields = .object fields :=
        congrArg Value.object (Fields.ofPairs_of_ordered hproper.1)
      rw [Node.value, hvalues room (Nat.le_of_succ_le_succ hroom), ← hfields]
      rfl

/-- `spells_write`, item by item. -/
theorem spells_writeItems : ∀ items : List Value, WholeItems items → ProperItems items →
    ∃ nodes, List.Forall₂ Spells (writeItems items) nodes ∧
      ∀ room, depthItems items ≤ room → Node.valueItems room nodes = .ok items
  | [], _, _ => ⟨[], .nil, fun _ _ => rfl⟩
  | v :: rest, hwhole, hproper => by
    obtain ⟨node, hnode, hvalue⟩ := spells_write v hwhole.1 hproper.1
    obtain ⟨nodes, hnodes, hvalues⟩ := spells_writeItems rest hwhole.2 hproper.2
    refine ⟨node :: nodes, .cons hnode hnodes, fun room hroom => ?_⟩
    obtain ⟨hfirst, hrest⟩ := Nat.max_le.mp hroom
    rw [Node.valueItems, hvalue room hfirst, hvalues room hrest]
    rfl

/-- `spells_write`, field by field. -/
theorem spells_writeFields : ∀ fields : List (String × Value),
    WholeFields fields → ProperFields fields →
    ∃ members,
      List.Forall₂ SpellsMember
        ((writeFields fields).map fun field => quote field.1 ++ ':' :: field.2) members ∧
      ∀ room, depthFields fields ≤ room → Node.valueMembers room members = .ok fields
  | [], _, _ => ⟨[], .nil, fun _ _ => rfl⟩
  | (key, v) :: rest, hwhole, hproper => by
    obtain ⟨node, hnode, hvalue⟩ := spells_write v hwhole.1 hproper.1
    obtain ⟨members, hmembers, hvalues⟩ := spells_writeFields rest hwhole.2 hproper.2
    refine ⟨(.written key, node) :: members, .cons (hnode.member key) hmembers, fun room hroom => ?_⟩
    obtain ⟨hfirst, hrest⟩ := Nat.max_le.mp hroom
    rw [Node.valueMembers, text_written, hvalue room hfirst, hvalues room hrest]
    rfl

end

end Value

/-- **Reading back a value** from its compact text. -/
theorem parse_write {v : Value} (hwhole : v.Whole) (hproper : v.Proper) (hdepth : v.depth ≤ deepest) :
    parse v.write = .ok v := by
  obtain ⟨node, hspells, hvalue⟩ := v.spells_write hwhole hproper
  rw [parse, readWhole_of_spells id _ hspells, hvalue deepest hdepth]

/-! ### One line -/

theorem lineFeed_notMem_escape (c : Char) : '\n' ∉ escape c := by
  have hdigit : ∀ n < 16, hexDigit n ≠ '\n' := by decide
  unfold escape
  split
  -- the line feed itself is escaped by a letter, so it is no other character
  case h_8 hquote hbackslash hfeed _ _ _ _ =>
    split
    · have hfirst := hdigit (c.toNat / 16) (by omega)
      have hsecond := hdigit (c.toNat % 16) (Nat.mod_lt _ (by decide))
      simp [hfirst.symm, hsecond.symm]
    · simpa using Ne.symm hfeed
  all_goals decide

theorem lineFeed_notMem_quote (s : String) : '\n' ∉ quote s := by
  have hescaped : '\n' ∉ s.toList.flatMap escape := by
    intro h
    obtain ⟨c, -, hc⟩ := List.mem_flatMap.mp h
    exact lineFeed_notMem_escape c hc
  simp [quote, hescaped]

theorem lineFeed_notMem_intText (n : Int) : '\n' ∉ intText n := by
  have hdigits : '\n' ∉ Nat.toDigits 10 n.natAbs := fun h =>
    absurd (Nat.isDigit_of_mem_toDigits (by decide) (by decide) h) (by decide)
  unfold intText
  split
  · simp [hdigits]
  · exact hdigits

theorem lineFeed_notMem_commaSeparated {texts : List (List Char)} (h : ∀ text ∈ texts, '\n' ∉ text) :
    '\n' ∉ commaSeparated texts := by
  cases texts with
  | nil => exact List.not_mem_nil
  | cons text texts =>
    obtain ⟨hfirst, hrest⟩ := List.forall_mem_cons.mp h
    rw [commaSeparated_cons, List.mem_append, List.mem_flatMap]
    rintro (hmem | ⟨other, hother, hmem⟩)
    · exact hfirst hmem
    · rcases List.mem_cons.mp hmem with heq | hmem
      · exact absurd heq (by decide)
      · exact hrest other hother hmem

theorem lineFeed_notMem_writeArray {items : List (List Char)} (h : ∀ text ∈ items, '\n' ∉ text) :
    '\n' ∉ writeArray items := by
  simp [writeArray, lineFeed_notMem_commaSeparated h]

theorem lineFeed_notMem_writeObject {fields : List (String × List Char)}
    (h : ∀ field ∈ fields, '\n' ∉ field.2) : '\n' ∉ writeObject fields := by
  have hmembers : ∀ text ∈ fields.map fun field => quote field.1 ++ ':' :: field.2,
      '\n' ∉ text := by
    intro text htext
    obtain ⟨field, hfield, rfl⟩ := List.mem_map.mp htext
    simp [lineFeed_notMem_quote, h field hfield]
  simp [writeObject, lineFeed_notMem_commaSeparated hmembers]

namespace Value

mutual

/-- The compact text of a value is a single line. -/
theorem lineFeed_notMem_write : ∀ v : Value, v.Whole → '\n' ∉ v.write
  | .null, _ => by decide
  | .bool true, _ => by decide
  | .bool false, _ => by decide
  | .int n, _ => lineFeed_notMem_intText n
  | .float _, hwhole => hwhole.elim
  | .string s, _ => lineFeed_notMem_quote s
  | .array items, hwhole => lineFeed_notMem_writeArray (lineFeed_notMem_writeItems items hwhole)
  | .object fields, hwhole =>
    lineFeed_notMem_writeObject (lineFeed_notMem_writeFields fields hwhole)

/-- `lineFeed_notMem_write`, item by item. -/
theorem lineFeed_notMem_writeItems : ∀ items : List Value, WholeItems items →
    ∀ text ∈ writeItems items, '\n' ∉ text
  | [], _ => List.forall_mem_nil _
  | v :: rest, hwhole => List.forall_mem_cons.mpr
    ⟨lineFeed_notMem_write v hwhole.1, lineFeed_notMem_writeItems rest hwhole.2⟩

/-- `lineFeed_notMem_write`, field by field. -/
theorem lineFeed_notMem_writeFields : ∀ fields : List (String × Value), WholeFields fields →
    ∀ field ∈ writeFields fields, '\n' ∉ field.2
  | [], _ => List.forall_mem_nil _
  | (_, v) :: rest, hwhole => List.forall_mem_cons.mpr
    ⟨lineFeed_notMem_write v hwhole.1, lineFeed_notMem_writeFields rest hwhole.2⟩

end

end Value

end ArchFacts.Json
