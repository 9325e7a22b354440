import Freeminer.Inventory.InventoryText

/-! `InventoryList::deSerialize` on any text: which texts it reads, or refuses with a
`SerializationError`, within the bounds of `m_items`. -/

namespace Freeminer.Inventory

open ItemStack

namespace InventoryList

/-- The line of a slot: the list with the item that the line gives. -/
def putItem (l : InventoryList) (itemI : ℕ) (item : Except LoadError ItemStack) :
    Except LoadError InventoryList := do
  let _ ← l.checkSlot itemI
  let item ← item
  l.setItem itemI item

def goOn {α : Type} (l : InventoryList) (r : Except LoadError InventoryList)
    (next : InventoryList → Except LoadError α × InventoryList) :
    Except LoadError α × InventoryList :=
  match r with
  | .error e => (.error e, l)
  | .ok l => next l

section Into

variable (u : Uninit) (json : Json) (idef : Option ItemDefManager)

/-- `readLines` with the list as it is left, also where the reading fails. -/
def readInto : ℕ → InventoryList → List ByteString →
    Except LoadError (List ByteString) × InventoryList
  | itemI, l, [] => (.error (l.malformatted itemI), l)
  | itemI, l, line :: lines =>
    let (name, iss) := IStream.getline { rest := line } 32
    if name = bytes "EndInventoryList" ∨ name = bytes "end" then
      let items := l.items.take itemI ++ List.replicate (l.items.length - itemI) {}
      (.ok lines, { l with items })
    else if name = bytes "Width" then
      let (width, iss) := iss.readUnsigned 32 l.width.toNat
      let l := { l with width := UInt32.ofNat width }
      if iss.fail then (.error (.serialization (bytes "incorrect width property")), l)
      else readInto itemI l lines
    else if name = bytes "Item" then
      l.goOn (l.putItem itemI (ItemStack.deSerialize u json idef iss)) fun l =>
        readInto (itemI + 1) l lines
    else if name = bytes "Empty" then
      l.goOn (l.putItem itemI (.ok {})) fun l => readInto (itemI + 1) l lines
    else if name = bytes "Keep" then readInto (keepItem itemI) l lines
    else readInto itemI l lines

/-- `deSerialize`, with the list as it is left. -/
def deSerializeInto (l : InventoryList) (lines : List ByteString) :
    Except LoadError (List ByteString) × InventoryList :=
  readInto u json idef 0 { l with width := 0 } lines

end Into

/-- The reading returned or threw a `SerializationError`, and the list has its size. -/
structure Safe (size : ℕ) (r : Except LoadError (List ByteString) × InventoryList) : Prop where
  thrown : ∀ e, r.1 = .error e → ∃ what, e = .serialization what
  size : r.2.items.length = size

/-! ## Lines -/

def Full (size itemI : ℕ) : Prop := size ≠ 0 ∧ size - 1 < itemI

section Lines

variable (u : Uninit) (json : Json) (idef : Option ItemDefManager) (size itemI : ℕ)
  (name : ByteString) (iss : IStream)

/-- A line that sets a slot of a list of no slots, or whose item has overrides that are no JSON. -/
def Faulty : Prop :=
  ¬Full size itemI ∧
    (name = bytes "Item" ∧ (ItemStack.deSerialize u json idef iss = .error .json ∨
        size = 0 ∧ ∃ item, ItemStack.deSerialize u json idef iss = .ok item) ∨
      name = bytes "Empty" ∧ size = 0)

/-- A line at which the reading ends: an end, a width that is no number, or a slot that is too
many or whose item is refused. -/
def Ends : Prop :=
  name = bytes "EndInventoryList" ∨ name = bytes "end" ∨
    name = bytes "Width" ∧ (iss.readUnsigned 32 0).2.fail = true ∨
    name = bytes "Item" ∧ (Full size itemI ∨
      ∃ what, ItemStack.deSerialize u json idef iss = .error (.serialization what)) ∨
    name = bytes "Empty" ∧ Full size itemI

def nextItem : ℕ :=
  if name = bytes "Item" ∨ name = bytes "Empty" then itemI + 1
  else if name = bytes "Keep" then keepItem itemI
  else itemI

def Sound : ℕ → List ByteString → Prop
  | _, [] => True
  | itemI, line :: lines =>
    let (name, iss) := IStream.getline { rest := line } 32
    ¬Faulty u json idef size itemI name iss ∧
      (Ends u json idef size itemI name iss ∨ Sound (nextItem itemI name) lines)

end Lines

variable {u : Uninit} {json : Json} {idef : Option ItemDefManager} {l l' : InventoryList}
  {itemI size : ℕ} {name : ByteString} {iss : IStream} {item : ItemStack}

/-! ## What an item text throws -/

/-- A `SerializationError`, or an error of the JSON library. -/
def Throws {α : Type} (r : Except LoadError α) : Prop :=
  ∀ e, r = .error e → e = .json ∨ ∃ what, e = .serialization what

theorem throws_ok {α : Type} (a : α) : Throws (.ok a) := by
  rintro e ⟨⟩

theorem throws_serialization {α : Type} (what : ByteString) :
    Throws (.error (.serialization what) : Except LoadError α) := by
  rintro e ⟨⟩
  exact .inr ⟨what, rfl⟩

theorem Throws.bind {α β : Type} {r : Except LoadError α} {f : α → Except LoadError β}
    (hr : Throws r) (hf : ∀ a, Throws (f a)) : Throws (r >>= f) := by
  cases r with
  | error e =>
    rintro e' ⟨⟩
    exact hr e rfl
  | ok a => exact hf a

theorem Throws.map {α β : Type} {r : Except LoadError α} (hr : Throws r) (f : α → β) :
    Throws (f <$> r) := by
  cases r with
  | error e =>
    rintro e' ⟨⟩
    exact hr e rfl
  | ok a => exact throws_ok (f a)

theorem throws_unescapeAll (s : ByteString) : Throws (unescapeAll s) := by
  fun_induction unescapeAll s with
  | case1 => exact throws_ok _
  | case2 => exact throws_serialization _
  | case3 c hc => exact throws_ok _
  | case4 c c2 s hc ih => exact ih.map _
  | case5 c hc h0 h1 h2 h3 s ih => exact ih.map _
  | case6 c s hc hshort => exact throws_serialization _
  | case7 c c2 s hc hc2 ih => exact ih.map _

theorem throws_grabJsonString (wasBackslash : Bool) (s : ByteString) :
    Throws (grabJsonString wasBackslash s) := by
  induction s generalizing wasBackslash with
  | nil => exact throws_serialization _
  | cons c s ih =>
    rw [grabJsonString]
    split_ifs
    · exact (ih false).bind fun r => throws_ok _
    · exact throws_ok _
    · exact (ih (c == 92)).bind fun r => throws_ok _

theorem throws_deSerializeJsonString (is : IStream) : Throws (deSerializeJsonString is) := by
  unfold deSerializeJsonString
  split
  · exact (throws_grabJsonString false _).bind fun r =>
      (throws_unescapeAll r.1).bind fun t => throws_ok _
  · exact throws_serialization _

theorem throws_deSerializeJsonStringIfNeeded (is : IStream) :
    Throws (deSerializeJsonStringIfNeeded is) := by
  unfold deSerializeJsonStringIfNeeded
  dsimp only
  split
  · exact throws_ok _
  · split_ifs
    · exact throws_deSerializeJsonString _
    · exact throws_ok _
    · exact throws_ok _

theorem throws_updateOverrides (json : Json) (m : Metadata) :
    Throws (Metadata.updateOverrides json m) := by
  unfold Metadata.updateOverrides
  split_ifs
  · rintro e ⟨⟩
    exact .inl rfl
  · rintro e ⟨⟩
    exact .inl rfl
  · exact throws_ok ()

theorem throws_readParts (json : Json) (idef : Option ItemDefManager) (name : ByteString)
    (is : IStream) : Throws (readParts json idef name is) := by
  unfold readParts
  dsimp only
  split_ifs
  · exact throws_ok _
  · exact throws_ok _
  · refine Throws.bind ?_ fun r => throws_ok _
    exact (throws_deSerializeJsonStringIfNeeded _).bind fun r =>
      (throws_updateOverrides json _).bind fun _ => throws_ok _

theorem throws_readMaterial (u : Uninit) (idef : Option ItemDefManager) (translate : Bool)
    (is : IStream) : Throws (readMaterial u idef translate is) := by
  unfold readMaterial
  dsimp only
  split_ifs
  all_goals first | exact throws_serialization _ | exact throws_ok _

theorem throws_deSerialize (u : Uninit) (json : Json) (idef : Option ItemDefManager)
    (is : IStream) : Throws (ItemStack.deSerialize u json idef is) := by
  refine (throws_deSerializeJsonStringIfNeeded is).bind fun r => ?_
  dsimp only
  split_ifs
  · exact throws_serialization _
  · exact (throws_readMaterial u idef true _).bind fun s => throws_ok _
  · exact (throws_readMaterial u idef false _).bind fun s => throws_ok _
  · exact throws_ok _
  · exact throws_serialization _
  · exact throws_ok _
  · exact (throws_readParts json idef _ _).bind fun s => throws_ok _

/-! ## One line -/

theorem length_end (l : InventoryList) (itemI : ℕ) :
    (l.items.take itemI ++ List.replicate (l.items.length - itemI) ({} : ItemStack)).length =
      l.items.length := by
  rw [List.length_append, List.length_take, List.length_replicate]
  omega

theorem checkSlot_of_full (h : Full l.items.length itemI) :
    l.checkSlot itemI = .error (.serialization (bytes "too many items")) := by
  obtain ⟨hne, hlt⟩ := h
  rw [checkSlot, if_pos ⟨fun h0 => hne (by rw [h0]; rfl), hlt⟩]

theorem checkSlot_of_not_full (h : ¬Full l.items.length itemI) : l.checkSlot itemI = .ok () := by
  rw [checkSlot, if_neg]
  rintro ⟨hne, hlt⟩
  exact h ⟨fun h0 => hne (List.length_eq_zero_iff.mp h0), hlt⟩

/-- What a slot does to a list that is not full. -/
theorem setItem_of_not_full (h : ¬Full l.items.length itemI) (item : ItemStack) :
    (l.items.length = 0 ∧ l.setItem itemI item = .error .outOfBounds) ∨
    (l.items.length ≠ 0 ∧ ∃ l', l.setItem itemI item = .ok l' ∧
      l'.items.length = l.items.length) := by
  by_cases h0 : l.items.length = 0
  · exact .inl ⟨h0, by rw [setItem, if_neg (by omega)]⟩
  · have hlt : itemI < l.items.length := by
      by_contra hge
      exact h ⟨h0, by omega⟩
    exact .inr ⟨h0, _, by rw [setItem, if_pos hlt], List.length_set⟩

theorem safe_error_iff {e : LoadError} (h : l.items.length = size) :
    Safe size (.error e, l) ↔ ∃ what, e = .serialization what :=
  ⟨fun hs => hs.thrown e rfl, fun he => ⟨fun _ h' => Except.error.inj h' ▸ he, h⟩⟩

theorem fail_readUnsigned (is : IStream) (bits old old' : ℕ) :
    (is.readUnsigned bits old).2.fail = (is.readUnsigned bits old').2.fail := by
  unfold IStream.readUnsigned
  split_ifs
  · split <;> rfl
  · rfl

/-- What comes of a line that sets a slot. -/
theorem safe_goOn_iff {next : InventoryList → Except LoadError (List ByteString) × InventoryList}
    {item : Except LoadError ItemStack} {P : Prop} (hsize : l.items.length = size)
    (hthrows : Throws item)
    (hnext : ∀ l' : InventoryList, l'.items.length = size → (Safe size (next l') ↔ P)) :
    Safe size (l.goOn (l.putItem itemI item) next) ↔
      ¬(¬Full size itemI ∧ (item = .error .json ∨ size = 0 ∧ ∃ i, item = .ok i)) ∧
        ((Full size itemI ∨ ∃ what, item = .error (.serialization what)) ∨ P) := by
  subst hsize
  by_cases hfull : Full l.items.length itemI
  · rw [putItem, checkSlot_of_full hfull]
    refine iff_of_true ((safe_error_iff rfl).mpr ⟨_, rfl⟩) ⟨fun h => h.1 hfull, .inl (.inl hfull)⟩
  · rw [putItem, checkSlot_of_not_full hfull]
    cases item with
    | error e =>
      refine (safe_error_iff rfl).trans ?_
      rcases hthrows e rfl with rfl | ⟨what, rfl⟩
      · simp [hfull]
      · simp
    | ok item =>
      rcases setItem_of_not_full hfull item with ⟨h0, hset⟩ | ⟨h0, l', hset, hlength⟩
      · change Safe _ (l.goOn (l.setItem itemI item) next) ↔ _
        rw [hset]
        have hfull0 : ¬Full 0 itemI := fun h => h.1 rfl
        refine (safe_error_iff rfl).trans ?_
        simp [h0, hfull0]
      · change Safe _ (l.goOn (l.setItem itemI item) next) ↔ _
        rw [hset]
        refine (hnext l' hlength).trans ?_
        simp [hfull, h0]

/-! ## The text -/

variable (u json idef) in

theorem nextItem_slot (h : name = bytes "Item" ∨ name = bytes "Empty") :
    nextItem itemI name = itemI + 1 := by
  rw [nextItem, if_pos h]

theorem safe_readInto_iff (lines : List ByteString) (hsize : l.items.length = size) :
    Safe size (readInto u json idef itemI l lines) ↔ Sound u json idef size itemI lines := by
  induction lines generalizing l itemI with
  | nil => exact iff_of_true ((safe_error_iff hsize).mpr ⟨_, rfl⟩) trivial
  | cons line lines ih =>
    rw [readInto, Sound]
    generalize hline : IStream.getline { rest := line } 32 = r
    obtain ⟨name, iss⟩ := r
    have hword : bytes "Width" ≠ bytes "Item" ∧ bytes "Width" ≠ bytes "Empty" ∧
        bytes "Width" ≠ bytes "Keep" ∧ bytes "Item" ≠ bytes "Empty" := by decide
    have hends : ∀ e ∈ [bytes "EndInventoryList", bytes "end"],
        e ≠ bytes "Width" ∧ e ≠ bytes "Item" ∧ e ≠ bytes "Empty" := by decide
    obtain ⟨hwi, hwe, hwk, hie⟩ := hword
    dsimp only
    by_cases hend : name = bytes "EndInventoryList" ∨ name = bytes "end"
    · rw [if_pos hend]
      obtain ⟨hw, hi, he⟩ := hends name (by simpa using hend)
      refine iff_of_true ⟨nofun, (length_end l itemI).trans hsize⟩
        ⟨?_, .inl (or_assoc.mp (.inl hend))⟩
      simp [Faulty, hi, he]
    rw [if_neg hend]
    rw [not_or] at hend
    by_cases hw : name = bytes "Width"
    · subst hw
      have hfail := fail_readUnsigned iss 32 l.width.toNat 0
      have hnext : nextItem itemI (bytes "Width") = itemI := by
        simp [nextItem, hwi, hwe, hwk]
      have hfaulty : ¬Faulty u json idef size itemI (bytes "Width") iss := by
        simp [Faulty, hwi, hwe]
      have hEnds : Ends u json idef size itemI (bytes "Width") iss ↔
          (iss.readUnsigned 32 0).2.fail = true := by
        simp [Ends, hend.1, hend.2, hwi, hwe]
      rw [if_pos rfl, hnext, hEnds, hfail]
      split_ifs with h
      · exact iff_of_true ((safe_error_iff (by exact hsize)).mpr ⟨_, rfl⟩) ⟨hfaulty, .inl h⟩
      · rw [ih (by exact hsize)]
        simp [hfaulty, h]
    rw [if_neg hw]
    by_cases hi : name = bytes "Item"
    · subst hi
      rw [if_pos rfl, nextItem_slot (.inl rfl)]
      have hthrows := throws_deSerialize u json idef iss
      refine (safe_goOn_iff hsize hthrows fun l' hl' => ih hl').trans ?_
      simp [Faulty, Ends, hend.1, hend.2, hw, hie]
    rw [if_neg hi]
    by_cases he : name = bytes "Empty"
    · subst he
      rw [if_pos rfl, nextItem_slot (.inr rfl)]
      refine (safe_goOn_iff hsize (throws_ok _) fun l' hl' => ih hl').trans ?_
      simp [Faulty, Ends, hend.1, hend.2, hw, hi]
    have hfaulty : ¬Faulty u json idef size itemI name iss := by
      simp [Faulty, hi, he]
    have hEnds : ¬Ends u json idef size itemI name iss := by
      simp [Ends, hend.1, hend.2, hw, hi, he]
    have hnext : nextItem itemI name = if name = bytes "Keep" then keepItem itemI else itemI := by
      rw [nextItem, if_neg (by simp [hi, he])]
    rw [if_neg he, hnext]
    split_ifs with hk
    · rw [ih hsize]
      simp [hfaulty, hEnds]
    · rw [ih hsize]
      simp [hfaulty, hEnds]

variable (u json idef) in
/-- Reading a text returns or throws a `SerializationError`, within the bounds of the list and with
its size kept, if and only if no line that is reached is faulty. -/
theorem deSerializeInto_safe_iff (l : InventoryList) (lines : List ByteString) :
    Safe l.items.length (l.deSerializeInto u json idef lines) ↔
      Sound u json idef l.items.length 0 lines :=
  safe_readInto_iff lines rfl

/-- An empty slot in a list that has none is set all the same. -/
theorem deSerializeInto_unsafe : ∃ (l : InventoryList) (lines : List ByteString),
    ¬Safe l.items.length
      (l.deSerializeInto ⟨0, 0, 0⟩ ⟨fun _ => true, fun _ => true⟩ none lines) := by
  refine ⟨{ name := bytes "main", items := [] }, [bytes "Empty", bytes "EndInventoryList"], ?_⟩
  intro h
  obtain ⟨what, hwhat⟩ := h.thrown .outOfBounds (by decide +kernel)
  cases hwhat

end InventoryList

end Freeminer.Inventory
