import Freeminer.Inventory.Move
import Freeminer.Inventory.RoomForItem

/-! What becomes of the wear and the metadata of items that are put together. `stacksWith` compares
name, wear and metadata; `addItem` compares the name and the metadata only, so that items of
different wear may be merged. -/

namespace Freeminer.Inventory

open Lib

abbrev Identity := ByteString × UInt16 × Metadata

namespace ItemStack

def stacksWith (s other : ItemStack) : Bool :=
  s.name == other.name && s.wear == other.wear && s.metadata == other.metadata

def identity (s : ItemStack) : Identity := (s.name, s.wear, s.metadata)

def itemsOf (d : Identity) (s : ItemStack) : ℕ := if s.identity = d then s.count.toNat else 0

def Part (s t : ItemStack) : Prop := s.count ≠ 0 → s.identity = t.identity

def Mixes (idef : ItemDefManager) (s newitem : ItemStack) : Prop :=
  s.count ≠ 0 ∧ s.wear ≠ newitem.wear ∧ roomFor idef s newitem ≠ 0

variable {idef : ItemDefManager} {s s' t left newitem : ItemStack} {d : Identity}

theorem stacksWith_iff : s.stacksWith t = true ↔ s.identity = t.identity := by
  simp [stacksWith, identity, and_assoc]

theorem identity_eq_iff : s.identity = t.identity ↔ s.kind = t.kind ∧ s.wear = t.wear := by
  simp only [identity, kind, Prod.mk.injEq]
  tauto

@[simp] theorem itemsOf_of_count (h : s.count = 0) (d : Identity) : itemsOf d s = 0 := by
  simp [itemsOf, h]

theorem Part.refl (s : ItemStack) : s.Part s := fun _ => rfl

theorem part_of_count (h : s.count = 0) : s.Part t := fun hne => absurd h hne

theorem Part.trans (h : s.Part s') (h' : s'.Part t) (hcount : s.count ≠ 0 → s'.count ≠ 0) :
    s.Part t := fun hne => (h hne).trans (h' (hcount hne))

theorem itemsOf_of_part (h : s.Part t) (d : Identity) :
    itemsOf d s = if t.identity = d then s.count.toNat else 0 := by
  by_cases h0 : s.count = 0
  · rw [itemsOf_of_count h0, h0]
    split_ifs <;> rfl
  · rw [itemsOf, h h0]

theorem identity_add {n : UInt16} (h : s.add n = .ok s') : s'.identity = s.identity := by
  unfold add at h
  split_ifs at h
  cases h
  rfl

theorem part_remove {n : UInt16} (h : s.remove n = .ok s') : s'.Part s := by
  unfold remove at h
  split_ifs at h
  by_cases h0 : s.count - n = 0
  · simp only [h0, if_true] at h
    cases h
    exact part_of_count rfl
  · simp only [h0, if_false] at h
    cases h
    exact fun _ => rfl

theorem part_addItem (h : s.addItem idef newitem = .ok (left, s')) :
    left.Part newitem ∧ (s.count ≠ 0 → s'.Part s) ∧ (s.count = 0 → s'.Part newitem) := by
  unfold addItem at h
  split_ifs at h with hnew hempty hkind hfits
  · cases h
    exact ⟨.refl _, fun _ => .refl _, fun h0 => part_of_count h0⟩
  · cases h
    exact ⟨part_of_count rfl, fun hne => absurd (empty_iff.mp hempty) hne, fun _ => .refl _⟩
  · cases h
    exact ⟨.refl _, fun _ => .refl _, fun h0 => absurd (empty_iff.mpr h0) hempty⟩
  · cases hadd : s.add newitem.count with
    | error e =>
      rw [hadd] at h
      cases h
    | ok s₁ =>
      rw [hadd] at h
      cases h
      exact ⟨part_of_count rfl, fun _ _ => identity_add hadd,
        fun h0 => absurd (empty_iff.mpr h0) hempty⟩
  · dsimp only at h
    cases hadd : s.add (s.freeSpace idef) with
    | error e =>
      rw [hadd] at h
      cases h
    | ok s₁ =>
      cases hremove : newitem.remove (s.freeSpace idef) with
      | error e =>
        rw [hadd, hremove] at h
        cases h
      | ok left₁ =>
        rw [hadd, hremove] at h
        cases h
        exact ⟨part_remove hremove, fun _ _ => identity_add hadd,
          fun h0 => absurd (empty_iff.mpr h0) hempty⟩

end ItemStack

/-! ## Merging -/

/-- The items before and after: none changes, unless some are merged into others, and then there
are fewer that are what the merged ones were. -/
structure Merged (mixed : Prop) (d : Identity) (items items' : Identity → ℕ) : Prop where
  kept : ¬mixed → ∀ e, items' e = items e
  lost : mixed → items' d < items d

section Merged

variable {m m' : Prop} {d : Identity} {items items' items'' : Identity → ℕ}

theorem Merged.iff (h : Merged m d items items') : (∀ e, items' e = items e) ↔ ¬m :=
  ⟨fun heq hm => absurd (heq d) (Nat.ne_of_lt (h.lost hm)), h.kept⟩

theorem Merged.le (h : Merged m d items items') : items' d ≤ items d := by
  by_cases hm : m
  · exact (h.lost hm).le
  · exact (h.kept hm d).le

theorem Merged.trans (h : Merged m d items items') (h' : Merged m' d items' items'') :
    Merged (m ∨ m') d items items'' where
  kept hm e := by
    rw [not_or] at hm
    rw [h'.kept hm.2, h.kept hm.1]
  lost hm := by
    have hle := h.le
    have hle' := h'.le
    rcases hm with hm | hm
    · exact hle'.trans_lt (h.lost hm)
    · exact (h'.lost hm).trans_le hle

theorem Merged.congr (h : Merged m d items items') (hm : m ↔ m') : Merged m' d items items' :=
  ⟨fun h' => h.kept (mt hm.mp h'), fun h' => h.lost (hm.mpr h')⟩

theorem merged_refl (d : Identity) (items : Identity → ℕ) : Merged False d items items :=
  ⟨fun _ _ => rfl, False.elim⟩

end Merged

namespace ItemStack

variable {idef : ItemDefManager} {s s' left newitem : ItemStack}

theorem addItem_merged (h : s.addItem idef newitem = .ok (left, s')) :
    Merged (Mixes idef s newitem) newitem.identity (fun d => itemsOf d s + itemsOf d newitem)
      (fun d => itemsOf d s' + itemsOf d left) := by
  obtain ⟨left₁, s₁, hadd, hadded⟩ := addItem_spec idef s newitem
  obtain ⟨rfl, rfl⟩ : left₁ = left ∧ s₁ = s' := by
    rw [hadd] at h
    cases h
    exact ⟨rfl, rfl⟩
  obtain ⟨hleft, hfull, hempty⟩ := part_addItem hadd
  have hleftCount := hadded.left_count
  have hcount := hadded.count
  have hle : roomFor idef s newitem ≤ newitem.count.toNat := room_le _ _ _ _
  by_cases h0 : s.count = 0
  · refine ⟨fun _ d => ?_, fun hm => absurd h0 hm.1⟩
    rw [itemsOf_of_part (hempty h0), itemsOf_of_part hleft, itemsOf_of_count h0, itemsOf]
    rw [h0, UInt16.toNat_zero] at hcount
    split_ifs <;> omega
  · have hitems : ∀ d, itemsOf d s₁ + itemsOf d left₁ =
        (if s.identity = d then s.count.toNat + roomFor idef s newitem else 0) +
          if newitem.identity = d then newitem.count.toNat - roomFor idef s newitem else 0 := by
      intro d
      rw [itemsOf_of_part (hfull h0), itemsOf_of_part hleft, hcount, hleftCount]
    constructor
    · intro hm d
      rw [hitems, itemsOf, itemsOf]
      by_cases hroom : roomFor idef s newitem = 0
      · rw [hroom, Nat.add_zero, Nat.sub_zero]
      · have hwear : s.wear = newitem.wear := by
          by_contra hne
          exact hm ⟨h0, hne, hroom⟩
        have hkind : s.kind = newitem.kind := by
          by_contra hne
          rw [roomFor, room, if_neg h0, if_neg hne] at hroom
          exact hroom rfl
        rw [identity_eq_iff.mpr ⟨hkind, hwear⟩]
        split_ifs <;> omega
    · rintro ⟨-, hwear, hroom⟩
      have hne : s.identity ≠ newitem.identity := fun h => hwear (identity_eq_iff.mp h).2
      rw [hitems, itemsOf, itemsOf, if_neg hne, if_neg hne, if_pos rfl, if_pos rfl]
      omega

theorem not_mixes_of_count (h : newitem.count = 0) : ¬Mixes idef s newitem := fun hm =>
  hm.2.2 (by simp [roomFor, h])

end ItemStack


/-! ## Lists -/

namespace ItemList

open ItemStack

def itemsWith (l : ItemList) (s : ItemStack) (d : Identity) : ℕ :=
  weight (itemsOf d) l + itemsOf d s

/-- `addItem` gets to a slot with which it mixes items before all of them are put somewhere. -/
def Mixed (idef : ItemDefManager) (l : ItemList) (newitem : ItemStack) : Prop :=
  ∃ i < l.length, Mixes idef (l.slotAt i) newitem ∧
    freeAt idef newitem.kind l (List.range i) < newitem.count.toNat

def MixedIn (idef : ItemDefManager) (l : ItemList) (newitem : ItemStack) (is : List ℕ) : Prop :=
  ∃ pre i post, is = pre ++ i :: post ∧ Mixes idef (l.slotAt i) newitem ∧
    freeAt idef newitem.kind l pre < newitem.count.toNat

structure Parts (l : ItemList) (newitem left : ItemStack) (l' : ItemList) : Prop where
  left : left.Part newitem
  full : ∀ i, (l.slotAt i).count ≠ 0 → (l'.slotAt i).Part (l.slotAt i)
  empty : ∀ i, (l.slotAt i).count = 0 → (l'.slotAt i).Part newitem

variable {idef : ItemDefManager} {l l' l'' : ItemList} {i : ℕ} {is : List ℕ}
  {newitem left left' : ItemStack}

theorem parts_refl (l : ItemList) (newitem : ItemStack) : Parts l newitem newitem l :=
  ⟨.refl _, fun _ _ => .refl _, fun _ h => part_of_count h⟩

theorem Parts.trans (h : Parts l newitem left l') (h' : Parts l' left left' l'')
    (hleft : left.count ≠ 0) (hfull : ∀ j, (l.slotAt j).count ≠ 0 → (l'.slotAt j).count ≠ 0) :
    Parts l newitem left' l'' where
  left := h'.left.trans h.left fun _ => hleft
  full j hj := (h'.full j (hfull j hj)).trans (h.full j hj) fun _ => hfull j hj
  empty j hj := by
    by_cases h0 : (l'.slotAt j).count = 0
    · exact (h'.empty j h0).trans h.left fun _ => hleft
    · exact (h'.full j h0).trans (h.empty j hj) fun _ => h0

theorem parts_addItemAt {s' : ItemStack} (hi : i < l.length)
    (hadd : (l.slotAt i).addItem idef newitem = .ok (left, s')) :
    Parts l newitem left (l.set i s') := by
  obtain ⟨hleft, hfull, hempty⟩ := part_addItem hadd
  refine ⟨hleft, fun j hj => ?_, fun j hj => ?_⟩
  · by_cases hij : i = j
    · subst hij
      rw [slotAt_set_self hi]
      exact hfull hj
    · rw [slotAt_set_of_ne hij]
      exact .refl _
  · by_cases hij : i = j
    · subst hij
      rw [slotAt_set_self hi]
      exact hempty hj
    · rw [slotAt_set_of_ne hij]
      exact part_of_count hj

theorem merged_addItemAt {s' : ItemStack} (hi : i < l.length)
    (hadd : (l.slotAt i).addItem idef newitem = .ok (left, s')) :
    Merged (Mixes idef (l.slotAt i) newitem) newitem.identity (l.itemsWith newitem)
      (itemsWith (l.set i s') left) := by
  have hslot := addItem_merged hadd
  have hset : ∀ d, weight (itemsOf d) (l.set i s') + itemsOf d (l.slotAt i) =
      weight (itemsOf d) l + itemsOf d s' := fun d => weight_set (getElem?_eq_slotAt hi) s'
  constructor
  · intro hm d
    have h1 := hslot.kept hm d
    have h2 := hset d
    unfold itemsWith
    omega
  · intro hm
    have h1 := hslot.lost hm
    have h2 := hset newitem.identity
    unfold itemsWith
    omega

theorem count_addItemAt {s' : ItemStack} (hi : i < l.length)
    (hadd : (l.slotAt i).addItem idef newitem = .ok (left, s')) (j : ℕ)
    (hj : (l.slotAt j).count ≠ 0) : (slotAt (l.set i s') j).count ≠ 0 := by
  by_cases hij : i = j
  · subst hij
    obtain ⟨left₁, s₁, hadd₁, h⟩ := ItemStack.addItem_spec idef (l.slotAt i) newitem
    rw [hadd] at hadd₁
    cases hadd₁
    rw [slotAt_set_self hi]
    exact ne_zero_of_le (by rw [h.count]; omega) hj
  · rw [slotAt_set_of_ne hij]
    exact hj

/-! ## The loops of `addItem` -/

theorem not_mixedIn_nil : ¬MixedIn idef l newitem [] := by
  rintro ⟨pre, i, post, h, -⟩
  cases pre <;> cases h

/-- The first slot, or one of the others with what is left. -/
theorem mixedIn_cons : MixedIn idef l newitem (i :: is) ↔
    Mixes idef (l.slotAt i) newitem ∨ ∃ pre j post, is = pre ++ j :: post ∧
      Mixes idef (l.slotAt j) newitem ∧
      freeFor idef newitem.kind (l.slotAt i) + freeAt idef newitem.kind l pre <
        newitem.count.toNat := by
  constructor
  · rintro ⟨pre, j, post, h, hm, hlt⟩
    cases pre with
    | nil =>
      obtain ⟨rfl, rfl⟩ := List.cons.inj h
      exact .inl hm
    | cons i' pre =>
      obtain ⟨rfl, rfl⟩ := List.cons.inj h
      rw [freeAt_cons] at hlt
      exact .inr ⟨pre, j, post, rfl, hm, hlt⟩
  · rintro (hm | ⟨pre, j, post, rfl, hm, hlt⟩)
    · refine ⟨[], i, is, rfl, hm, ?_⟩
      have hroom := hm.2.2
      have hle : roomFor idef (l.slotAt i) newitem ≤ newitem.count.toNat := room_le _ _ _ _
      simp only [freeAt, weight, List.map_nil, List.sum_nil]
      omega
    · exact ⟨i :: pre, j, post, rfl, hm, by rwa [freeAt_cons]⟩

/-- One turn of the first loop that leaves something. -/
theorem mixedIn_next {s' : ItemStack} (hmem : i ∉ is) (hleft : left.Part newitem)
    (h0 : left.count ≠ 0)
    (hcount : left.count.toNat = newitem.count.toNat - freeFor idef newitem.kind (l.slotAt i)) :
    MixedIn idef (l.set i s') left is ↔ ∃ pre j post, is = pre ++ j :: post ∧
      Mixes idef (l.slotAt j) newitem ∧
      freeFor idef newitem.kind (l.slotAt i) + freeAt idef newitem.kind l pre <
        newitem.count.toNat := by
  have hpos : left.count.toNat ≠ 0 := fun h => h0 (UInt16.toNat_inj.mp h)
  have hkind : left.kind = newitem.kind := (identity_eq_iff.mp (hleft h0)).1
  have hwear : left.wear = newitem.wear := (identity_eq_iff.mp (hleft h0)).2
  refine exists_congr fun pre => exists_congr fun j => exists_congr fun post =>
    and_congr_right fun his => and_congr ?_ ?_
  · have hij : i ≠ j := by
      rintro rfl
      exact hmem (by rw [his]; simp)
    rw [slotAt_set_of_ne hij]
    refine and_congr_right fun hs => ?_
    rw [hwear, roomFor_of_ne hs, roomFor_of_ne hs, hkind]
    refine and_congr_right fun _ => ?_
    omega
  · have hpre : i ∉ pre := fun h => hmem (by rw [his]; simp [h])
    rw [hkind, freeAt_set hpre]
    omega

theorem fillLoop_merged (his : ∀ i ∈ is, i < l.length) (hnodup : is.Nodup)
    (h : addItemLoop idef false is newitem l = .ok (left, l')) :
    Merged (MixedIn idef l newitem is) newitem.identity (l.itemsWith newitem)
        (l'.itemsWith left) ∧
      Parts l newitem left l' := by
  induction is generalizing l newitem with
  | nil =>
    cases h
    exact ⟨(merged_refl _ _).congr (iff_of_false id not_mixedIn_nil), parts_refl _ _⟩
  | cons i is ih =>
    have hi := his i (by simp)
    have his' : ∀ j ∈ is, j < l.length := fun j hj => his j (by simp [hj])
    obtain ⟨hmem, hnodup⟩ := List.nodup_cons.mp hnodup
    rw [addItemLoop, getItem, getElem?_eq_slotAt hi] at h
    simp only [bind, Except.bind] at h
    by_cases h0 : (l.slotAt i).count = 0
    · rw [if_pos (by simp [empty, h0])] at h
      obtain ⟨hmerged, hparts⟩ := ih his' hnodup h
      refine ⟨hmerged.congr ?_, hparts⟩
      have hfree : freeFor idef newitem.kind (l.slotAt i) = 0 := if_neg fun h => h.1 h0
      rw [mixedIn_cons, hfree]
      simp only [Nat.zero_add]
      exact (or_iff_right fun hm => hm.1 h0).symm
    · obtain ⟨left₁, s', hadd, hadded⟩ := ItemStack.addItem_spec idef (l.slotAt i) newitem
      have hcount := hadded.left_count
      rw [roomFor_of_ne h0] at hcount
      have hmerged := merged_addItemAt hi hadd
      have hparts := parts_addItemAt hi hadd
      rw [if_neg (by simp [empty, h0]), addItemAt, getElem?_eq_slotAt hi] at h
      simp only [hadd, bind, Except.bind, pure, Except.pure, empty_iff] at h
      split_ifs at h with hdone
      · cases h
        refine ⟨hmerged.congr ?_, hparts⟩
        rw [mixedIn_cons]
        refine (or_iff_left ?_).symm
        rintro ⟨pre, j, post, -, -, hlt⟩
        rw [hdone, UInt16.toNat_zero] at hcount
        omega
      · obtain ⟨hmerged', hparts'⟩ := ih (l := l.set i s') (by simpa using his') hnodup h
        refine ⟨?_, hparts.trans hparts' hdone (count_addItemAt hi hadd)⟩
        rw [hparts.left hdone] at hmerged'
        refine (hmerged.trans hmerged').congr ?_
        rw [mixedIn_cons, mixedIn_next hmem hparts.left hdone (by omega)]

theorem putLoop_merged (his : ∀ i ∈ is, i < l.length)
    (h : addItemLoop idef true is newitem l = .ok (left, l')) :
    Merged False newitem.identity (l.itemsWith newitem) (l'.itemsWith left) ∧
      Parts l newitem left l' := by
  induction is generalizing l newitem with
  | nil =>
    cases h
    exact ⟨merged_refl _ _, parts_refl _ _⟩
  | cons i is ih =>
    have hi := his i (by simp)
    have his' : ∀ j ∈ is, j < l.length := fun j hj => his j (by simp [hj])
    rw [addItemLoop, getItem, getElem?_eq_slotAt hi] at h
    simp only [bind, Except.bind] at h
    by_cases h0 : (l.slotAt i).count = 0
    · obtain ⟨left₁, s', hadd, hadded⟩ := ItemStack.addItem_spec idef (l.slotAt i) newitem
      have hcount := hadded.left_count
      rw [roomFor_of_empty h0, Nat.sub_self] at hcount
      have hzero : left₁.count = 0 := UInt16.toNat_inj.mp hcount
      rw [if_neg (by simp [empty, h0]), addItemAt, getElem?_eq_slotAt hi] at h
      simp only [hadd, bind, Except.bind, pure, Except.pure, empty_iff] at h
      rw [if_pos hzero] at h
      cases h
      exact ⟨(merged_addItemAt hi hadd).congr (iff_of_false (fun hm => hm.1 h0) id),
        parts_addItemAt hi hadd⟩
    · rw [if_pos (by simp [empty, h0])] at h
      exact ih his' h

theorem mixedIn_range : MixedIn idef l newitem (List.range l.length) ↔ Mixed idef l newitem := by
  constructor
  · rintro ⟨pre, i, post, h, hm, hlt⟩
    have hpre : pre = List.range pre.length := by
      have := congrArg (List.take pre.length) h
      rw [List.take_range, List.take_left' rfl, Nat.min_eq_left] at this
      · exact this.symm
      · have := congrArg List.length h
        simp only [List.length_range, List.length_append] at this
        omega
    have hlen : pre.length < l.length := by
      have := congrArg List.length h
      simp only [List.length_range, List.length_append, List.length_cons] at this
      omega
    have hi : i = pre.length := by
      have := congrArg (·[pre.length]?) h
      simpa [hlen] using this.symm
    rw [hpre, ← hi] at hlt
    exact ⟨i, hi ▸ hlen, hm, hlt⟩
  · rintro ⟨i, hi, hm, hlt⟩
    refine ⟨List.range i, i, (List.range l.length).drop (i + 1), ?_, hm, hlt⟩
    conv_lhs => rw [← List.take_append_drop i (List.range l.length), List.take_range,
      Nat.min_eq_left hi.le, List.drop_eq_getElem_cons (by simpa using hi), List.getElem_range]

theorem addItem_merged (h : l.addItem idef newitem = .ok (left, l')) :
    Merged (Mixed idef l newitem) newitem.identity (l.itemsWith newitem) (l'.itemsWith left) ∧
      Parts l newitem left l' := by
  have his : ∀ i ∈ List.range l.length, i < l.length := fun i hi => List.mem_range.mp hi
  unfold addItem at h
  split_ifs at h with hempty
  · cases h
    rw [empty_iff] at hempty
    refine ⟨(merged_refl _ _).congr (iff_of_false id ?_), parts_refl _ _⟩
    rintro ⟨i, -, hm, -⟩
    exact not_mixes_of_count hempty hm
  · obtain ⟨left₁, l₁, hfill, hcount, hkind, hlength, hsame⟩ :=
      fillLoop_spec idef his List.nodup_range newitem
    obtain ⟨hmerged, hparts⟩ := fillLoop_merged his List.nodup_range hfill
    have hmerged := hmerged.congr mixedIn_range
    rw [hfill] at h
    simp only [bind, Except.bind, pure, Except.pure, empty_iff] at h
    split_ifs at h with hdone
    · cases h
      exact ⟨hmerged, hparts⟩
    · obtain ⟨hmerged', hparts'⟩ := putLoop_merged (fun i hi => List.mem_range.mp hi) h
      rw [hparts.left hdone] at hmerged'
      exact ⟨(hmerged.trans hmerged').congr (or_iff_left id),
        hparts.trans hparts' hdone fun j hj => mt (hsame j).mp hj⟩

end ItemList

end Freeminer.Inventory
