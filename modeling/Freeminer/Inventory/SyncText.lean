import Freeminer.Inventory.Marks

/-! The text that the server sends of an inventory: the lists that are marked in full, the others by
name. What the client's inventory is after it has read one. -/

namespace Freeminer.Inventory

open Lib ItemStack

/-- Among distinct names an element is found by its own. -/
theorem find?_of_nodup {α β : Type} [DecidableEq β] {f : α → β} {l : List α} {a : α}
    (h : (l.map f).Nodup) (ha : a ∈ l) : l.find? (fun x => decide (f x = f a)) = some a := by
  induction l with
  | nil => cases ha
  | cons x l ih =>
    obtain ⟨hx, hl⟩ := List.nodup_cons.mp h
    rw [List.find?_cons]
    rcases List.mem_cons.mp ha with rfl | ha
    · rw [decide_eq_true rfl]
    · have hne : f x ≠ f a := fun heq => hx (heq ▸ List.mem_map_of_mem ha)
      rw [decide_eq_false hne]
      exact ih hl ha

namespace TrackedInventory

/-- Whether `serialize` writes the list in full. -/
def InFull (incremental : Bool) (l : TrackedList) : Prop := incremental = false ∨ l.slots.dirty = true

instance (incremental : Bool) (l : TrackedList) : Decidable (InFull incremental l) :=
  inferInstanceAs (Decidable (_ ∨ _))

/-- What `serialize` writes of a list, which stands at some place. -/
def listText (order : ℕ → ℕ → MetadataOrder) (incremental : Bool) (l : TrackedList × ℕ) :
    ByteString :=
  if InFull incremental l.1 then
    bytes "List " ++ l.1.name ++ 32 :: decimal l.1.slots.items.length ++ [10] ++
      l.1.list.serialize (order l.2)
  else bytes "KeepList " ++ l.1.name ++ [10]

def serialize (order : ℕ → ℕ → MetadataOrder) (incremental : Bool) (inv : TrackedInventory) :
    ByteString :=
  inv.lists.zipIdx.flatMap (listText order incremental) ++ bytes "EndInventory" ++ [10]

theorem serialize_full (order : ℕ → ℕ → MetadataOrder) (inv : TrackedInventory) :
    inv.serialize order false = InventoryLists.serialize order (inv.lists.map TrackedList.list) := by
  have hlist : listText order false = fun l =>
      bytes "List " ++ l.1.name ++ 32 :: decimal l.1.slots.items.length ++ [10] ++
        l.1.list.serialize (order l.2) :=
    funext fun l => if_pos (.inl rfl)
  simp [serialize, InventoryLists.serialize, hlist, List.zipIdx_map, List.flatMap_map,
    TrackedList.list]

def lines (order : ℕ → ℕ → MetadataOrder) (incremental : Bool) (l : TrackedList × ℕ) :
    List ByteString :=
  if InFull incremental l.1 then InventoryLists.listLines order (l.1.list, l.2)
  else [bytes "KeepList " ++ l.1.name]

def message (incremental : Bool) (lists : List TrackedList) : Message ByteString InventoryList :=
  fun name =>
    match lists.find? fun l => decide (l.name = name) with
    | none => .absent
    | some l => if InFull incremental l then .full l.list else .keep

/-- What a text needs to be read as it was written: names of one line without blanks, and in full
only stacks that come back from their text. -/
structure Sendable (json : Json) (idef : Option ItemDefManager) (incremental : Bool)
    (inv : TrackedInventory) : Prop where
  name : ∀ l ∈ inv.lists, 32 ∉ l.name ∧ 10 ∉ l.name
  size : ∀ l ∈ inv.lists, l.slots.items.length < 2 ^ 32
  stored : ∀ l ∈ inv.lists, InFull incremental l → ∀ s ∈ l.slots.items,
    s.Stored json idef ∧ (s.count ≠ 0 → s.name ∉ obsoleteWords)

variable {order : ℕ → ℕ → MetadataOrder} {incremental : Bool} {inv : TrackedInventory}

theorem serialize_eq (order : ℕ → ℕ → MetadataOrder) (incremental : Bool)
    (inv : TrackedInventory) :
    inv.serialize order incremental =
      (inv.lists.zipIdx.flatMap (lines order incremental) ++ [bytes "EndInventory"]).flatMap
        (· ++ [10]) := by
  have hlist : listText order incremental =
      fun l => (lines order incremental l).flatMap (· ++ [10]) := by
    funext l
    unfold listText lines
    split_ifs
    · simp [InventoryLists.listLines, InventoryLists.header, InventoryList.serialize_eq,
        TrackedList.list]
    · simp
  simp [serialize, hlist, List.flatMap_assoc]

theorem newline_notMem_lines {l : TrackedList × ℕ} {line : ByteString} (hname : 10 ∉ l.1.name)
    (h : line ∈ lines order incremental l) : 10 ∉ line := by
  unfold lines at h
  split_ifs at h
  · rcases List.mem_cons.mp h with rfl | h
    · exact InventoryLists.newline_notMem_header hname
    · exact InventoryList.newline_notMem_textLines h
  · rw [List.mem_singleton] at h
    have hkeep : (10 : UInt8) ∉ bytes "KeepList " := by decide
    simp [h, hkeep, hname]

theorem splitOn_serialize (h : ∀ l ∈ inv.lists, 10 ∉ l.name) :
    (inv.serialize order incremental).splitOn 10 =
      inv.lists.zipIdx.flatMap (lines order incremental) ++ [bytes "EndInventory", []] := by
  have hlines : ∀ line ∈ inv.lists.zipIdx.flatMap (lines order incremental) ++
      [bytes "EndInventory"], 10 ∉ line := by
    intro line hline
    rcases List.mem_append.mp hline with hline | hline
    · obtain ⟨l, hl, hline⟩ := List.mem_flatMap.mp hline
      exact newline_notMem_lines (h l.1 (List.fst_mem_of_mem_zipIdx hl)) hline
    · rw [List.mem_singleton] at hline
      rw [hline]
      decide
  have hsplit := splitOn_lines hlines []
  rw [List.append_nil, List.splitOn_nil, ← serialize_eq] at hsplit
  rw [hsplit, List.append_assoc]
  rfl

end TrackedInventory

/-! ### What the client reads -/

namespace InventoryLists

variable {u : Uninit} {json : Json} {idef : Option ItemDefManager} {inv inv' : InventoryLists}
  {l : InventoryList} {name : ByteString} {newLists : List ℕ} {i : ℕ}

def getList (inv : InventoryLists) (name : ByteString) : Option InventoryList :=
  inv.find? fun l => decide (l.name = name)

def Distinct (inv : InventoryLists) : Prop := (inv.map InventoryList.name).Nodup

theorem name_of_getListIndex (h : inv.getListIndex name = some i) :
    ∃ l, inv[i]? = some l ∧ l.name = name := by
  obtain ⟨hi, hname, -⟩ := List.findIdx?_eq_some_iff_getElem.mp h
  exact ⟨inv[i], List.getElem?_eq_getElem hi, by simpa using hname⟩

theorem getList_eq_some (h : inv.Distinct) : inv.getList name = some l ↔ l ∈ inv ∧ l.name = name := by
  constructor
  · intro hl
    exact ⟨List.mem_of_find?_eq_some hl, by simpa using List.find?_some hl⟩
  · rintro ⟨hl, rfl⟩
    exact find?_of_nodup h hl

theorem getList_eq_none : inv.getList name = none ↔ name ∉ inv.map InventoryList.name := by
  simp [getList, List.find?_eq_none]

/-- The lists of two inventories of distinct names. -/
theorem getList_congr (h : inv.Distinct) (h' : inv'.Distinct)
    (hmem : ∀ l : InventoryList, l.name = name → (l ∈ inv ↔ l ∈ inv')) :
    inv.getList name = inv'.getList name := by
  apply Option.ext fun l => ?_
  rw [getList_eq_some h, getList_eq_some h']
  constructor
  · rintro ⟨hl, hname⟩
    exact ⟨(hmem l hname).mp hl, hname⟩
  · rintro ⟨hl, hname⟩
    exact ⟨(hmem l hname).mpr hl, hname⟩

def put (inv : InventoryLists) (l : InventoryList) : InventoryLists :=
  match inv.getListIndex l.name with
  | none => inv ++ [l]
  | some i => inv.set i l

/-- The place at which `put` puts it. -/
def placeOf (inv : InventoryLists) (name : ByteString) : ℕ :=
  (inv.getListIndex name).getD inv.length

theorem map_name_put (inv : InventoryLists) (l : InventoryList) :
    (inv.put l).map InventoryList.name =
      if l.name ∈ inv.map InventoryList.name then inv.map InventoryList.name
      else inv.map InventoryList.name ++ [l.name] := by
  unfold put
  cases hi : inv.getListIndex l.name with
  | none =>
    rw [if_neg (getListIndex_eq_none.mp hi)]
    exact List.map_append
  | some i =>
    obtain ⟨m, hm, hname⟩ := name_of_getListIndex hi
    rw [if_pos (hname ▸ List.mem_map_of_mem (List.mem_of_getElem? hm))]
    dsimp only
    apply List.ext_getElem? fun j => ?_
    rw [List.map_set, List.getElem?_set]
    by_cases hij : i = j
    · subst hij
      rw [if_pos rfl, if_pos (by simpa using (List.getElem?_eq_some_iff.mp hm).1),
        List.getElem?_map, hm, ← hname]
      rfl
    · rw [if_neg hij]

theorem Distinct.put (h : inv.Distinct) (l : InventoryList) : (inv.put l).Distinct := by
  unfold Distinct
  rw [map_name_put]
  split_ifs with hmem
  · exact h
  · rw [List.nodup_append_comm]
    exact List.nodup_cons.mpr ⟨hmem, h⟩

theorem getElem?_put (inv : InventoryLists) (l : InventoryList) (j : ℕ) :
    (inv.put l)[j]? = if j = inv.placeOf l.name then some l else inv[j]? := by
  unfold InventoryLists.put placeOf
  cases hi : inv.getListIndex l.name with
  | none =>
    dsimp only [Option.getD_none]
    rcases lt_trichotomy j inv.length with hlt | rfl | hlt
    · rw [if_neg hlt.ne, List.getElem?_append_left hlt]
    · rw [if_pos rfl, List.getElem?_concat_length]
    · rw [if_neg hlt.ne', List.getElem?_append_right hlt.le, List.getElem?_eq_none hlt.le,
        List.getElem?_eq_none (by simp; omega)]
  | some i =>
    obtain ⟨m, hm, -⟩ := name_of_getListIndex hi
    dsimp only [Option.getD_some]
    rw [List.getElem?_set]
    by_cases hij : j = i
    · subst hij
      rw [if_pos rfl, if_pos (List.getElem?_eq_some_iff.mp hm).1, if_pos rfl]
    · rw [if_neg (Ne.symm hij), if_neg hij]

/-- A list of another name is where it was. -/
theorem name_ne_of_ne_placeOf (h : inv.Distinct) {j : ℕ} {m : InventoryList}
    (hm : inv[j]? = some m) (hj : j ≠ inv.placeOf name) : m.name ≠ name := by
  rintro rfl
  have hmem : m.name ∈ inv.map InventoryList.name := List.mem_map_of_mem (List.mem_of_getElem? hm)
  cases hi : inv.getListIndex m.name with
  | none => exact getListIndex_eq_none.mp hi hmem
  | some i =>
    obtain ⟨m', hm', hname⟩ := name_of_getListIndex hi
    apply hj
    rw [placeOf, hi]
    have hnodup := List.nodup_iff_getElem?_ne_getElem?.mp h
    have hget : ∀ (k : ℕ) (m : InventoryList), inv[k]? = some m →
        (inv.map InventoryList.name)[k]? = some m.name := by
      intro k m hk
      rw [List.getElem?_map, hk]
      rfl
    have hlt : ∀ (k : ℕ) (m : InventoryList), inv[k]? = some m →
        k < (inv.map InventoryList.name).length := by
      intro k m hk
      simpa using (List.getElem?_eq_some_iff.mp hk).1
    rcases lt_trichotomy j i with hlt' | heq | hlt'
    · exact absurd (by rw [hget j m hm, hget i m' hm', hname]) (hnodup j i hlt' (hlt i m' hm'))
    · exact heq
    · exact absurd (by rw [hget j m hm, hget i m' hm', hname]) (hnodup i j hlt' (hlt j m hm))

theorem getList_put (h : inv.Distinct) (l : InventoryList) :
    (inv.put l).getList name = if name = l.name then some l else inv.getList name := by
  split_ifs with hname
  · rw [getList_eq_some (h.put l)]
    refine ⟨List.mem_of_getElem? ((getElem?_put inv l (inv.placeOf l.name)).trans (if_pos rfl)),
      hname.symm⟩
  · apply getList_congr (h.put l) h
    intro m hm
    constructor
    · intro hmem
      obtain ⟨j, hj⟩ := List.mem_iff_getElem?.mp hmem
      rw [getElem?_put] at hj
      split_ifs at hj with hplace
      · exact absurd (hm.symm.trans (congrArg InventoryList.name (Option.some.inj hj)).symm) hname
      · exact List.mem_of_getElem? hj
    · intro hmem
      obtain ⟨j, hj⟩ := List.mem_iff_getElem?.mp hmem
      by_cases hplace : j = inv.placeOf l.name
      · have hl : m.name = l.name := by
          rw [hplace, placeOf] at hj
          cases hi : inv.getListIndex l.name with
          | none =>
            rw [hi, Option.getD_none, List.getElem?_eq_none le_rfl] at hj
            cases hj
          | some i =>
            obtain ⟨m', hm', hname'⟩ := name_of_getListIndex hi
            rw [hi, Option.getD_some, hm'] at hj
            rw [← Option.some.inj hj, hname']
        exact absurd (hm.symm.trans hl) hname
      · exact List.mem_of_getElem? ((getElem?_put inv l j).trans ((if_neg hplace).trans hj))

variable (u json idef) in
/-- A list that is sent in full takes the place of the one of its name. -/
theorem readLists_inFull (order : ℕ → MetadataOrder) (n : ℕ) (inv : InventoryLists)
    (newLists : List ℕ) (rest : List ByteString) (hname : 32 ∉ l.name)
    (hsize : l.items.length < 2 ^ 32) (hitems : readSlots u json idef order 0 l.items = .ok l.items) :
    readLists u json idef (n + 1) inv newLists (header l :: (l.textLines order ++ rest)) =
      readLists u json idef n (inv.put l) (newLists ++ [inv.placeOf l.name]) rest := by
  have htext : header l = bytes "List" ++ 32 :: (l.name ++ 32 :: decimal l.items.length) := by
    simp [header, bytes]
  have hend : ¬(bytes "List" = bytes "EndInventory" ∨ bytes "List" = bytes "end") := by decide
  have hread : ∀ old : InventoryList, old.name = l.name → old.items.length = l.items.length →
      InventoryList.deSerialize u json idef old (l.textLines order ++ rest) = .ok (l, rest) := by
    intro old hold hlength
    rw [InventoryList.deSerialize_textLines u json idef order l old hold hlength, hitems]
    rfl
  rw [readLists, htext, IStream.getline_delim (by decide)]
  simp only [if_neg hend, if_true, IStream.getline_delim hname, readUnsigned_decimal hsize]
  unfold put placeOf
  cases hi : inv.getListIndex l.name with
  | none =>
    dsimp only
    rw [hread ⟨l.name, 0, List.replicate l.items.length {}⟩ rfl (by simp)]
    rfl
  | some i =>
    obtain ⟨m, hm, hmname⟩ := name_of_getListIndex hi
    dsimp only
    have hget : ∀ d, inv.getD i d = m := by
      intro d
      rw [List.getD_eq_getElem?_getD, hm]
      rfl
    rw [hget, hread (m.setSize (UInt32.ofNat l.items.length)) hmname
      (by rw [length_setSize, UInt32.toNat_ofNat_of_lt' hsize])]
    rfl

variable (u json idef) in
theorem readLists_keep (n : ℕ) (inv : InventoryLists) (newLists : List ℕ)
    (rest : List ByteString) (hname : 32 ∉ name) :
    readLists u json idef (n + 1) inv newLists ((bytes "KeepList " ++ name) :: rest) =
      readLists u json idef n inv (newLists ++ (inv.getListIndex name).toList) rest := by
  have htext : bytes "KeepList " ++ name = bytes "KeepList" ++ 32 :: name := rfl
  have hend : ¬(bytes "KeepList" = bytes "EndInventory" ∨ bytes "KeepList" = bytes "end") := by
    decide
  have hlist : bytes "KeepList" ≠ bytes "List" := by decide
  rw [readLists, htext, IStream.getline_delim (by decide)]
  simp only [if_neg hend, if_neg hlist, if_true, IStream.getline_end hname]

/-! ### The whole text -/

/-- The client's lists, and the places of those that were named, after some lists of a text. -/
structure ReadSoFar (incremental : Bool) (inv₀ : InventoryLists) (done : List TrackedList)
    (inv : InventoryLists) (newLists : List ℕ) : Prop where
  distinct : inv.Distinct
  list : ∀ name, inv.getList name =
    match TrackedInventory.message incremental done name with
    | .full l => some l
    | _ => inv₀.getList name
  named : ∀ (j : ℕ) (m : InventoryList), inv[j]? = some m →
    (j ∈ newLists ↔ m.name ∈ done.map TrackedList.name)

variable {incremental : Bool} {inv₀ : InventoryLists} {done todo : List TrackedList}
  {t : TrackedList}

theorem message_append (h : t.name ∉ done.map TrackedList.name) (name : ByteString) :
    TrackedInventory.message incremental (done ++ [t]) name =
      if name = t.name then
        if TrackedInventory.InFull incremental t then .full t.list else .keep
      else TrackedInventory.message incremental done name := by
  unfold TrackedInventory.message
  rw [List.find?_append]
  by_cases hname : name = t.name
  · have hnone : done.find? (fun l => decide (l.name = name)) = none := by
      rw [List.find?_eq_none]
      intro l hl heq
      exact h (hname ▸ of_decide_eq_true heq ▸ List.mem_map_of_mem hl)
    rw [if_pos hname, hnone, List.find?_cons, decide_eq_true hname.symm]
    rfl
  · rw [if_neg hname, List.find?_cons, decide_eq_false (Ne.symm hname), List.find?_nil,
      Option.or_none]

theorem ReadSoFar.inFull {newLists : List ℕ}
    (h : ReadSoFar incremental inv₀ done inv newLists) (hnew : t.name ∉ done.map TrackedList.name)
    (hfull : TrackedInventory.InFull incremental t) :
    ReadSoFar incremental inv₀ (done ++ [t]) (inv.put t.list)
      (newLists ++ [inv.placeOf t.name]) where
  distinct := h.distinct.put t.list
  list name := by
    rw [getList_put h.distinct, message_append hnew, TrackedList.name_list]
    by_cases hname : name = t.name
    · rw [if_pos hname, if_pos hname, if_pos hfull]
    · rw [if_neg hname, if_neg hname]
      exact h.list name
  named j m hm := by
    rw [getElem?_put, TrackedList.name_list] at hm
    rw [List.mem_append, List.mem_singleton, List.map_append, List.mem_append, List.map_singleton,
      List.mem_singleton]
    by_cases hplace : j = inv.placeOf t.name
    · rw [if_pos hplace] at hm
      rw [← Option.some.inj hm]
      exact iff_of_true (.inr hplace) (.inr rfl)
    · rw [if_neg hplace] at hm
      have hne := name_ne_of_ne_placeOf h.distinct hm hplace
      rw [or_iff_left hplace, or_iff_left hne]
      exact h.named j m hm

theorem ReadSoFar.keep {newLists : List ℕ}
    (h : ReadSoFar incremental inv₀ done inv newLists) (hnew : t.name ∉ done.map TrackedList.name)
    (hkeep : ¬TrackedInventory.InFull incremental t) :
    ReadSoFar incremental inv₀ (done ++ [t]) inv
      (newLists ++ (inv.getListIndex t.name).toList) where
  distinct := h.distinct
  list name := by
    rw [message_append hnew, h.list name]
    by_cases hname : name = t.name
    · have habsent : TrackedInventory.message incremental done name = .absent := by
        unfold TrackedInventory.message
        rw [List.find?_eq_none.mpr]
        intro l hl heq
        exact hnew (hname ▸ of_decide_eq_true heq ▸ List.mem_map_of_mem hl)
      rw [if_pos hname, if_neg hkeep, habsent]
    · rw [if_neg hname]
  named j m hm := by
    rw [List.mem_append, List.map_append, List.mem_append, List.map_singleton, List.mem_singleton,
      h.named j m hm]
    apply or_congr Iff.rfl
    rw [Option.mem_toList]
    constructor
    · intro hi
      obtain ⟨m', hm', hname⟩ := name_of_getListIndex hi
      rw [← Option.some.inj (hm'.symm.trans hm), hname]
    · intro hname
      by_contra hi
      refine name_ne_of_ne_placeOf h.distinct hm (fun hplace => hi ?_) hname
      cases hindex : inv.getListIndex t.name with
      | none =>
        have hmem := List.mem_map_of_mem (f := InventoryList.name) (List.mem_of_getElem? hm)
        exact absurd (hname ▸ hmem) (getListIndex_eq_none.mp hindex)
      | some i => rw [hplace, placeOf, hindex, Option.getD_some]

/-- At the end the lists that were not named go. -/
theorem ReadSoFar.finish {newLists : List ℕ} (h : ReadSoFar incremental inv₀ done inv newLists) :
    (inv.zipIdx.filter fun l => decide (l.2 ∈ newLists)).map Prod.fst =
      inv.filter fun l => decide (l.name ∈ done.map TrackedList.name) := by
  have hfilter : inv.zipIdx.filter (fun l => decide (l.2 ∈ newLists)) =
      inv.zipIdx.filter fun l => decide (l.1.name ∈ done.map TrackedList.name) := by
    apply List.filter_congr
    intro l hl
    have hl := h.named l.2 l.1 (List.mk_mem_zipIdx_iff_getElem?.mp hl)
    simp only [hl]
  rw [hfilter]
  conv_rhs => rw [← List.zipIdx_map_fst 0 inv, List.filter_map]
  rfl

theorem Distinct.filter (h : inv.Distinct) (p : InventoryList → Bool) :
    Distinct (inv.filter p) :=
  h.sublist (List.filter_sublist.map _)

theorem getList_filter (h : inv.Distinct) (names : List ByteString) (name : ByteString) :
    getList (inv.filter fun l => decide (l.name ∈ names)) name =
      if name ∈ names then inv.getList name else none := by
  apply Option.ext fun l => ?_
  rw [getList_eq_some (h.filter _), List.mem_filter, decide_eq_true_eq]
  split_ifs with hmem
  · rw [getList_eq_some h]
    constructor
    · rintro ⟨⟨hl, -⟩, hname⟩
      exact ⟨hl, hname⟩
    · rintro ⟨hl, rfl⟩
      exact ⟨⟨hl, hmem⟩, rfl⟩
  · refine iff_of_false ?_ (by simp)
    rintro ⟨⟨-, hl⟩, rfl⟩
    exact hmem hl

open TrackedInventory in
variable (u json idef) in
theorem readLists_lines (order : ℕ → ℕ → MetadataOrder) {n k : ℕ} {newLists : List ℕ}
    (hn : todo.length < n) (hnodup : ((done ++ todo).map TrackedList.name).Nodup)
    (hname : ∀ l ∈ todo, 32 ∉ l.name) (hsize : ∀ l ∈ todo, l.slots.items.length < 2 ^ 32)
    (hstored : ∀ l ∈ todo, InFull incremental l → ∀ s ∈ l.slots.items,
      s.Stored json idef ∧ (s.count ≠ 0 → s.name ∉ obsoleteWords))
    (h : ReadSoFar incremental inv₀ done inv newLists) :
    ∃ inv' newLists', ReadSoFar incremental inv₀ (done ++ todo) inv' newLists' ∧
      readLists u json idef n inv newLists
          ((todo.zipIdx k).flatMap (lines order incremental) ++ [bytes "EndInventory", []]) =
        .ok (inv'.filter fun l => decide (l.name ∈ (done ++ todo).map TrackedList.name)) := by
  induction todo generalizing done inv newLists n k with
  | nil =>
    obtain ⟨n, rfl⟩ : ∃ k, n = k + 1 := ⟨n - 1, by simp at hn; omega⟩
    refine ⟨inv, newLists, by rwa [List.append_nil], ?_⟩
    rw [List.zipIdx_nil, List.flatMap_nil, List.nil_append, readLists,
      IStream.getline_end (by decide), List.append_nil]
    simp only [true_or, if_true, h.finish]
  | cons t todo ih =>
    obtain ⟨n, rfl⟩ : ∃ k, n = k + 1 := ⟨n - 1, by simp at hn; omega⟩
    have hnew : t.name ∉ done.map TrackedList.name := by
      intro hmem
      rw [List.map_append, List.map_cons] at hnodup
      exact (List.disjoint_of_nodup_append hnodup) hmem List.mem_cons_self
    have hrest : done ++ t :: todo = (done ++ [t]) ++ todo := by simp
    have ht := hname t List.mem_cons_self
    rw [hrest] at hnodup ⊢
    rw [List.zipIdx_cons, List.flatMap_cons]
    by_cases hfull : InFull incremental t
    · have hitems : readSlots u json idef (order k) 0 t.list.items = .ok t.list.items :=
        (readSlots_eq_iff u json idef (order k) t.slots.items
          (fun s hs => (hstored t List.mem_cons_self hfull s hs).2) 0).mpr
          fun s hs => (hstored t List.mem_cons_self hfull s hs).1
      have hlines : ∀ more tail, lines order incremental (t, k) ++ more ++ tail =
          header t.list :: (t.list.textLines (order k) ++ (more ++ tail)) := by
        intro more tail
        rw [lines, if_pos hfull, List.append_assoc]
        rfl
      rw [hlines, readLists_inFull u json idef (order k) n inv newLists _ ht
        (hsize t List.mem_cons_self) hitems]
      exact ih (by simpa using hn) hnodup (fun l hl => hname l (List.mem_cons_of_mem _ hl))
        (fun l hl => hsize l (List.mem_cons_of_mem _ hl))
        (fun l hl => hstored l (List.mem_cons_of_mem _ hl)) (h.inFull hnew hfull)
    · have hlines : ∀ more tail, lines order incremental (t, k) ++ more ++ tail =
          (bytes "KeepList " ++ t.name) :: (more ++ tail) := by
        intro more tail
        rw [lines, if_neg hfull, List.append_assoc]
        rfl
      rw [hlines, readLists_keep u json idef n inv newLists _ ht]
      exact ih (by simpa using hn) hnodup (fun l hl => hname l (List.mem_cons_of_mem _ hl))
        (fun l hl => hsize l (List.mem_cons_of_mem _ hl))
        (fun l hl => hstored l (List.mem_cons_of_mem _ hl)) (h.keep hnew hfull)

theorem length_le_flatMap_lines (order : ℕ → ℕ → MetadataOrder) (incremental : Bool)
    (lists : List TrackedList) (k : ℕ) :
    lists.length ≤
      ((lists.zipIdx k).flatMap (TrackedInventory.lines order incremental)).length := by
  induction lists generalizing k with
  | nil => exact Nat.zero_le _
  | cons l lists ih =>
    have ih := ih (k + 1)
    have hpos : 0 < (TrackedInventory.lines order incremental (l, k)).length := by
      unfold TrackedInventory.lines
      split_ifs <;> simp [listLines]
    simp only [List.zipIdx_cons, List.flatMap_cons, List.length_append, List.length_cons]
    omega

variable (u json idef) in
/-- What the client has after it has read a text that the server sent. -/
theorem deSerialize_serialize_tracked (order : ℕ → ℕ → MetadataOrder) {server : TrackedInventory}
    (hdistinct : (server.lists.map TrackedList.name).Nodup)
    (hsend : server.Sendable json idef incremental) (h₀ : inv₀.Distinct) :
    ∃ inv', deSerialize u json idef inv₀ (server.serialize order incremental) = .ok inv' ∧
      inv'.Distinct ∧ ∀ name, inv'.getList name =
        (TrackedInventory.message incremental server.lists name).apply (inv₀.getList name) := by
  have hstart : ReadSoFar incremental inv₀ [] inv₀ [] := ⟨h₀, fun _ => rfl, fun j m _ => by simp⟩
  have hlength : server.lists.length <
      (server.lists.zipIdx.flatMap (TrackedInventory.lines order incremental) ++
        [bytes "EndInventory", []]).length := by
    have := length_le_flatMap_lines order incremental server.lists 0
    simp only [List.length_append, List.length_cons]
    omega
  obtain ⟨inv', newLists', hread, heq⟩ := readLists_lines u json idef order (k := 0) hlength
    (by simpa using hdistinct) (fun l hl => (hsend.name l hl).1) hsend.size hsend.stored hstart
  rw [List.nil_append] at hread heq
  refine ⟨inv'.filter fun l => decide (l.name ∈ server.lists.map TrackedList.name), ?_,
    hread.distinct.filter _, fun name => ?_⟩
  · rw [deSerialize, TrackedInventory.splitOn_serialize fun l hl => (hsend.name l hl).2]
    exact heq
  · rw [getList_filter hread.distinct, hread.list name]
    unfold TrackedInventory.message
    cases hfind : server.lists.find? fun l => decide (l.name = name) with
    | none =>
      rw [if_neg]
      · rfl
      · intro hmem
        obtain ⟨l, hl, hname⟩ := List.mem_map.mp hmem
        exact List.find?_eq_none.mp hfind l hl (by simpa using hname)
    | some l =>
      have hname : l.name = name := by simpa using List.find?_some hfind
      rw [if_pos (hname ▸ List.mem_map_of_mem (List.mem_of_find?_eq_some hfind))]
      dsimp only
      split_ifs <;> rfl

end InventoryLists

end Freeminer.Inventory
