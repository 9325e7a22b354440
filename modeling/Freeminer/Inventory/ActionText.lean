import Freeminer.Inventory.DropAction
import Freeminer.Inventory.InventoryLocation

/-! The text of an inventory action, as the client sends it to the server: fields between spaces,
with the names of the locations and of the lists as they are. -/

namespace Freeminer

open Lib

namespace IStream

/-- `std::getline` into a string, which stays as it is when the stream is no longer good. -/
def getlineInto (s : IStream) (delim : UInt8) (old : ByteString) : ByteString × IStream :=
  if s.good then s.getline delim else (old, { s with fail := true })

theorem getlineInto_delim {line : ByteString} {delim : UInt8} (h : delim ∉ line)
    (rest old : ByteString) :
    getlineInto { rest := line ++ delim :: rest } delim old = (line, { rest }) :=
  getline_delim h rest

theorem getlineInto_end {line : ByteString} {delim : UInt8} (h : delim ∉ line) (old : ByteString) :
    getlineInto { rest := line } delim old =
      (line, { rest := [], eof := true, fail := line.isEmpty }) :=
  getline_end h

/-- A line and what is left of the stream are parts of it. -/
theorem mem_of_mem_getline {s : IStream} {delim c : UInt8}
    (h : c ∈ (s.getline delim).1 ∨ c ∈ (s.getline delim).2.rest) : c ∈ s.rest := by
  unfold getline at h
  split_ifs at h
  · rcases cut_cases delim s.rest with heq | ⟨before, after, heq, hs⟩
    · simpa [heq] using h
    · rw [heq] at h
      rw [hs, List.mem_append, List.mem_cons]
      exact h.imp id .inr
  · simpa using h

theorem notMem_getline (s : IStream) (delim : UInt8) : delim ∉ (s.getline delim).1 := by
  have hcut := notMem_cut delim s.rest
  unfold getline
  split_ifs
  · rcases cut_cases delim s.rest with heq | ⟨before, after, heq, -⟩ <;> rw [heq] at hcut ⊢ <;>
      exact hcut
  · exact List.not_mem_nil

theorem notMem_getlineInto {delim : UInt8} {old : ByteString} (h : delim ∉ old) (s : IStream) :
    delim ∉ (s.getlineInto delim old).1 := by
  unfold getlineInto
  split_ifs
  · exact s.notMem_getline delim
  · exact h

end IStream

namespace Inventory

open Database

variable {w : PosWidth}

/-! ## Actions and their text -/

structure ICraftAction (ι : Type) where
  count : UInt16 := 0
  craftInv : ι

def IMoveAction.serialize (a : IMoveAction (InventoryLocation w)) : ByteString :=
  (if !a.moveSomewhere then bytes "Move " else bytes "MoveSomewhere ") ++
    (decimal a.count.toNat ++ 32 :: (a.fromInv.serialize ++ 32 :: (a.fromList ++ 32 ::
      (decimalInt a.fromI.toInt ++ 32 :: (a.toInv.serialize ++ 32 :: (a.toList ++
        if !a.moveSomewhere then 32 :: decimalInt a.toI.toInt else []))))))

def IDropAction.serialize (a : IDropAction (InventoryLocation w)) : ByteString :=
  bytes "Drop " ++ (decimal a.count.toNat ++ 32 :: (a.fromInv.serialize ++ 32 ::
    (a.fromList ++ 32 :: decimalInt a.fromI.toInt)))

def ICraftAction.serialize (a : ICraftAction (InventoryLocation w)) : ByteString :=
  bytes "Craft " ++ (decimal a.count.toNat ++ 32 :: (a.craftInv.serialize ++ [32]))

/-- The constructor of `IMoveAction` from a stream. -/
def IMoveAction.read (w : PosWidth) (is : IStream) (somewhere : Bool) :
    IMoveAction (InventoryLocation w) :=
  let (ts, is) := is.getlineInto 32 []
  let count := UInt16.ofInt (stoi ts)
  let (ts, is) := is.getlineInto 32 ts
  let fromInv := InventoryLocation.deSerialize w ts
  let (fromList, is) := is.getlineInto 32 []
  let (ts, is) := is.getlineInto 32 ts
  let fromI := Int16.ofInt (stoi ts)
  let (ts, is) := is.getlineInto 32 ts
  let toInv := InventoryLocation.deSerialize w ts
  let (toList, is) := is.getlineInto 32 []
  let toI := if !somewhere then Int16.ofInt (stoi (is.getlineInto 32 ts).1) else -1
  { fromInv, fromList, fromI, toInv, toList, toI, count, moveSomewhere := somewhere }

def IDropAction.read (w : PosWidth) (is : IStream) : IDropAction (InventoryLocation w) :=
  let (ts, is) := is.getlineInto 32 []
  let count := UInt16.ofInt (stoi ts)
  let (ts, is) := is.getlineInto 32 ts
  let fromInv := InventoryLocation.deSerialize w ts
  let (fromList, is) := is.getlineInto 32 []
  let (ts, _) := is.getlineInto 32 ts
  { count, fromInv, fromList, fromI := Int16.ofInt (stoi ts) }

def ICraftAction.read (w : PosWidth) (is : IStream) : ICraftAction (InventoryLocation w) :=
  let (ts, is) := is.getlineInto 32 []
  let count := UInt16.ofInt (stoi ts)
  let (ts, _) := is.getlineInto 32 ts
  { count, craftInv := InventoryLocation.deSerialize w ts }

inductive InventoryAction (w : PosWidth) where
  | move (a : IMoveAction (InventoryLocation w))
  | drop (a : IDropAction (InventoryLocation w))
  | craft (a : ICraftAction (InventoryLocation w))

namespace InventoryAction

def serialize : InventoryAction w → ByteString
  | move a => a.serialize
  | drop a => a.serialize
  | craft a => a.serialize

def deSerialize (w : PosWidth) (is : IStream) : Option (InventoryAction w) :=
  let (type, is) := is.getlineInto 32 []
  if type = bytes "Move" then some (move (.read w is false))
  else if type = bytes "MoveSomewhere" then some (move (.read w is true))
  else if type = bytes "Drop" then some (drop (.read w is))
  else if type = bytes "Craft" then some (craft (.read w is))
  else none

/-- The action without what is private to `apply`. A move to any slot has no destination index. -/
def sent : InventoryAction w → InventoryAction w
  | move a => move { a with
      toI := if !a.moveSomewhere then a.toI else -1
      causedByMoveSomewhere := false
      moveCount := 0 }
  | drop a => drop a
  | craft a => craft a

def RoundTrips (a : InventoryAction w) : Prop := deSerialize w { rest := a.serialize } = some a.sent

def locations : InventoryAction w → List (InventoryLocation w)
  | move a => [a.fromInv, a.toInv]
  | drop a => [a.fromInv]
  | craft a => [a.craftInv]

def lists : InventoryAction w → List ByteString
  | move a => [a.fromList, a.toList]
  | drop a => [a.fromList]
  | craft _ => []

end InventoryAction

/-! ## Locations -/

namespace InventoryLocation

/-- The name of a player's or a detached inventory has no space and no line break. -/
def Plain : InventoryLocation w → Prop
  | player name => 32 ∉ name ∧ 10 ∉ name
  | detached name => 32 ∉ name ∧ 10 ∉ name
  | _ => True

/-- A text with no space is read as a location with a plain name. -/
theorem plain_deSerialize {s : ByteString} (h : 32 ∉ s) : (deSerialize w s).Plain := by
  have hname : 32 ∉ (IStream.getline (IStream.getline { rest := s } 58).2 10).1 ∧
      10 ∉ (IStream.getline (IStream.getline { rest := s } 58).2 10).1 :=
    ⟨fun hc => h (IStream.mem_of_mem_getline (.inr (IStream.mem_of_mem_getline (.inl hc)))),
      IStream.notMem_getline _ 10⟩
  unfold deSerialize
  dsimp only
  split_ifs
  · trivial
  · trivial
  · exact hname
  · trivial
  · exact hname
  · trivial

theorem notMem_serialize {loc : InventoryLocation w} (h : loc.Plain) : 32 ∉ loc.serialize := by
  have hspace (n : ℤ) : 32 ∉ decimalInt n := notMem_decimalInt (by decide) (by decide) n
  cases loc with
  | undefined => exact (by decide : (32 : UInt8) ∉ bytes "undefined")
  | currentPlayer => exact (by decide : (32 : UInt8) ∉ bytes "current_player")
  | player name =>
    have hword : (32 : UInt8) ∉ bytes "player:" := by decide
    simp [serialize, hword, h.1]
  | nodemeta p =>
    have hword : (32 : UInt8) ∉ bytes "nodemeta:" := by decide
    simp [serialize, hword, hspace]
  | detached name =>
    have hword : (32 : UInt8) ∉ bytes "detached:" := by decide
    simp [serialize, hword, h.1]

/-- The type of a location is what stands before the colon. -/
theorem getline_type (type : ByteString) (h : 58 ∉ type) (rest : ByteString) :
    IStream.getline { rest := (type ++ [58]) ++ rest } 58 = (type, { rest }) := by
  rw [List.append_assoc, List.singleton_append]
  exact IStream.getline_delim h rest

theorem deSerialize_serialize {loc : InventoryLocation w} (h : loc.Plain) :
    deSerialize w loc.serialize = loc := by
  cases loc with
  | undefined => rfl
  | currentPlayer => rfl
  | player name =>
    have htype := getline_type (bytes "player") (by decide) name
    have hline := IStream.getline_end h.2
    unfold deSerialize serialize
    rw [show bytes "player:" = bytes "player" ++ [58] by decide, htype]
    dsimp only
    rw [if_neg (by decide), if_neg (by decide), if_pos rfl, hline]
  | nodemeta p => exact deSerialize_serialize_nodemeta p
  | detached name =>
    have htype := getline_type (bytes "detached") (by decide) name
    have hline := IStream.getline_end h.2
    unfold deSerialize serialize
    rw [show bytes "detached:" = bytes "detached" ++ [58] by decide, htype]
    dsimp only
    rw [if_neg (by decide), if_neg (by decide), if_neg (by decide), if_neg (by decide), if_pos rfl,
      hline]

end InventoryLocation

/-! ## The round trip -/

theorem ofInt_stoi_count (n : UInt16) : UInt16.ofInt (stoi (decimal n.toNat)) = n := by
  have hlt := n.toNat_lt
  rw [stoi_decimal (by omega), ← UInt16.toNat_inj]
  have hmod : (UInt16.ofInt n.toNat).toNat = ((n.toNat : ℤ) % 65536).toNat % 65536 := rfl
  rw [hmod]
  omega

theorem ofInt_stoi_index (i : Int16) : Int16.ofInt (stoi (decimalInt i.toInt)) = i := by
  have hle := i.le_toInt
  have hlt := i.toInt_lt
  rw [stoi_decimalInt (by omega) (by omega), Int16.ofInt_toInt]

section Read

variable (w)

theorem IMoveAction.plain_read (is : IStream) (somewhere : Bool) :
    (IMoveAction.read w is somewhere).fromInv.Plain ∧
      (IMoveAction.read w is somewhere).toInv.Plain := by
  have hts (s : IStream) {old : ByteString} (h : 32 ∉ old) := IStream.notMem_getlineInto h s
  unfold IMoveAction.read
  dsimp only
  exact ⟨InventoryLocation.plain_deSerialize (hts _ (hts _ List.not_mem_nil)),
    InventoryLocation.plain_deSerialize (hts _ (hts _ (hts _ (hts _ List.not_mem_nil))))⟩

theorem IDropAction.plain_read (is : IStream) : (IDropAction.read w is).fromInv.Plain :=
  InventoryLocation.plain_deSerialize
    (IStream.notMem_getlineInto (IStream.notMem_getlineInto List.not_mem_nil _) _)

theorem ICraftAction.plain_read (is : IStream) : (ICraftAction.read w is).craftInv.Plain :=
  InventoryLocation.plain_deSerialize
    (IStream.notMem_getlineInto (IStream.notMem_getlineInto List.not_mem_nil _) _)

end Read

namespace InventoryAction

/-- Whatever the text is, the names of the locations that are read are plain. -/
theorem plain_of_deSerialize {is : IStream} {a : InventoryAction w}
    (h : deSerialize w is = some a) : ∀ loc ∈ a.locations, loc.Plain := by
  unfold deSerialize at h
  dsimp only at h
  split_ifs at h
  · cases h
    have hplain := IMoveAction.plain_read w (is.getlineInto 32 []).2 false
    simpa [locations] using hplain
  · cases h
    have hplain := IMoveAction.plain_read w (is.getlineInto 32 []).2 true
    simpa [locations] using hplain
  · cases h
    have hplain := IDropAction.plain_read w (is.getlineInto 32 []).2
    simpa [locations] using hplain
  · cases h
    have hplain := ICraftAction.plain_read w (is.getlineInto 32 []).2
    simpa [locations] using hplain

end InventoryAction

theorem IMoveAction.read_serialize {a : IMoveAction (InventoryLocation w)}
    (hfrom : a.fromInv.Plain) (hto : a.toInv.Plain) (hfromList : 32 ∉ a.fromList)
    (htoList : 32 ∉ a.toList) :
    IMoveAction.read w { rest := decimal a.count.toNat ++ 32 :: (a.fromInv.serialize ++ 32 ::
      (a.fromList ++ 32 :: (decimalInt a.fromI.toInt ++ 32 :: (a.toInv.serialize ++ 32 ::
        (a.toList ++ if !a.moveSomewhere then 32 :: decimalInt a.toI.toInt else []))))) }
        a.moveSomewhere =
      { a with
        toI := if !a.moveSomewhere then a.toI else -1
        causedByMoveSomewhere := false
        moveCount := 0 } := by
  have hspace (n : ℤ) : 32 ∉ decimalInt n := notMem_decimalInt (by decide) (by decide) n
  have hcount : 32 ∉ decimal a.count.toNat := notMem_decimal (by decide) _
  have hfromText := InventoryLocation.notMem_serialize hfrom
  have htoText := InventoryLocation.notMem_serialize hto
  unfold IMoveAction.read
  simp only [IStream.getlineInto_delim hcount, IStream.getlineInto_delim hfromText,
    IStream.getlineInto_delim hfromList, IStream.getlineInto_delim (hspace _),
    IStream.getlineInto_delim htoText, InventoryLocation.deSerialize_serialize hfrom,
    InventoryLocation.deSerialize_serialize hto, ofInt_stoi_count, ofInt_stoi_index]
  cases hsomewhere : a.moveSomewhere with
  | false =>
    simp only [Bool.not_false, if_true, IStream.getlineInto_delim htoList,
      IStream.getlineInto_end (hspace _), ofInt_stoi_index]
  | true =>
    simp only [Bool.not_true, Bool.false_eq_true, if_false, List.append_nil,
      IStream.getlineInto_end htoList]

theorem IDropAction.read_serialize {a : IDropAction (InventoryLocation w)}
    (hfrom : a.fromInv.Plain) (hfromList : 32 ∉ a.fromList) :
    IDropAction.read w { rest := decimal a.count.toNat ++ 32 :: (a.fromInv.serialize ++ 32 ::
      (a.fromList ++ 32 :: decimalInt a.fromI.toInt)) } = a := by
  have hspace : 32 ∉ decimalInt a.fromI.toInt := notMem_decimalInt (by decide) (by decide) _
  have hcount : 32 ∉ decimal a.count.toNat := notMem_decimal (by decide) _
  have hfromText := InventoryLocation.notMem_serialize hfrom
  unfold IDropAction.read
  simp only [IStream.getlineInto_delim hcount, IStream.getlineInto_delim hfromText,
    IStream.getlineInto_delim hfromList, IStream.getlineInto_end hspace,
    InventoryLocation.deSerialize_serialize hfrom, ofInt_stoi_count, ofInt_stoi_index]

theorem ICraftAction.read_serialize {a : ICraftAction (InventoryLocation w)}
    (hcraft : a.craftInv.Plain) :
    ICraftAction.read w { rest := decimal a.count.toNat ++ 32 ::
      (a.craftInv.serialize ++ [32]) } = a := by
  have hcount : 32 ∉ decimal a.count.toNat := notMem_decimal (by decide) _
  have hcraftText := InventoryLocation.notMem_serialize hcraft
  unfold ICraftAction.read
  simp only [IStream.getlineInto_delim hcount, IStream.getlineInto_delim hcraftText,
    InventoryLocation.deSerialize_serialize hcraft, ofInt_stoi_count]

namespace InventoryAction

theorem getlineInto_type (type : ByteString) (h : 32 ∉ type) (rest : ByteString) :
    IStream.getlineInto { rest := (type ++ [32]) ++ rest } 32 [] = (type, { rest }) := by
  rw [List.append_assoc, List.singleton_append]
  exact IStream.getlineInto_delim h rest []

theorem deSerialize_serialize {a : InventoryAction w} (hlists : ∀ name ∈ a.lists, 32 ∉ name)
    (hplain : ∀ loc ∈ a.locations, loc.Plain) : a.RoundTrips := by
  unfold RoundTrips deSerialize
  cases a with
  | move a =>
    have hread := IMoveAction.read_serialize (hplain a.fromInv (by simp [locations]))
      (hplain a.toInv (by simp [locations])) (hlists a.fromList (by simp [lists]))
      (hlists a.toList (by simp [lists]))
    have hmove := getlineInto_type (bytes "Move") (by decide)
    have hsomewhere := getlineInto_type (bytes "MoveSomewhere") (by decide)
    unfold serialize IMoveAction.serialize sent
    cases h : a.moveSomewhere with
    | false =>
      simp only [h, Bool.not_false, if_true] at hread ⊢
      rw [show bytes "Move " = bytes "Move" ++ [32] by decide, hmove]
      dsimp only
      rw [if_pos rfl, hread]
    | true =>
      simp only [h, Bool.not_true, Bool.false_eq_true, if_false] at hread ⊢
      rw [show bytes "MoveSomewhere " = bytes "MoveSomewhere" ++ [32] by decide, hsomewhere]
      dsimp only
      rw [if_neg (by decide), if_pos rfl, hread]
  | drop a =>
    have hread := IDropAction.read_serialize (hplain a.fromInv (by simp [locations]))
      (hlists a.fromList (by simp [lists]))
    have htype := getlineInto_type (bytes "Drop") (by decide)
    unfold serialize IDropAction.serialize sent
    rw [show bytes "Drop " = bytes "Drop" ++ [32] by decide, htype]
    dsimp only
    rw [if_neg (by decide), if_neg (by decide), if_pos rfl, hread]
  | craft a =>
    have hread := ICraftAction.read_serialize (hplain a.craftInv (by simp [locations]))
    have htype := getlineInto_type (bytes "Craft") (by decide)
    unfold serialize ICraftAction.serialize sent
    rw [show bytes "Craft " = bytes "Craft" ++ [32] by decide, htype]
    dsimp only
    rw [if_neg (by decide), if_neg (by decide), if_neg (by decide), if_pos rfl, hread]

/-- An action survives the way to the server if and only if the names of its players' and
detached inventories have no space and no line break. -/
theorem rereads_iff (a : InventoryAction w) (hlists : ∀ name ∈ a.lists, 32 ∉ name) :
    a.RoundTrips ↔ ∀ loc ∈ a.locations, loc.Plain := by
  constructor
  · intro h
    have hplain := plain_of_deSerialize h
    cases a with
    | move a => exact hplain
    | drop a => exact hplain
    | craft a => exact hplain
  · exact deSerialize_serialize hlists

def dropFrom (name : ByteString) : InventoryAction .pos16 :=
  drop { fromInv := .detached name, fromList := bytes "main", fromI := 3 }

theorem rereads_iff_bag : (dropFrom (bytes "bag")).RoundTrips ↔
    ∀ loc ∈ (dropFrom (bytes "bag")).locations, loc.Plain :=
  rereads_iff (dropFrom (bytes "bag")) (by decide)

/-- A detached inventory with a space in its name. -/
theorem not_rereads :
    ¬∀ a : InventoryAction .pos16, (∀ name ∈ a.lists, 32 ∉ name) → a.RoundTrips := by
  intro h
  have hplain := plain_of_deSerialize (h (dropFrom (bytes "a bag")) (by decide))
    (.detached (bytes "a bag")) List.mem_cons_self
  exact hplain.1 (by decide)

end InventoryAction

end Inventory

end Freeminer
