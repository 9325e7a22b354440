import Std.Data.ExtTreeMap
import Freeminer.Database.MapKeys
import Freeminer.Lib.Machine

/-! `Database_LevelDB`: the blocks of a map in a store of keys and values, where blocks may have been
stored under integer keys before. -/

namespace Freeminer.Database

open Std Lib
open Voxel (V3)

abbrev Bpos (w : PosWidth) := {p : V3 // w.InRange p}

abbrev Store := ExtTreeMap ByteString ByteString

inductive BlockOp (w : PosWidth) where
  | saveBlock (pos : Bpos w) (data : ByteString)
  | loadBlock (pos : Bpos w)
  | deleteBlock (pos : Bpos w)
  | listAllLoadableBlocks

inductive BlockAnswer where
  | ok
  | block (data : ByteString)
  | positions (ps : Set V3)

namespace LevelDB

variable {w : PosWidth}

/-- The new block, and the delete of what the old format has for its position. -/
def saveBlock (s : Store) (pos : V3) (data : ByteString) : Store :=
  (s.insert (getBlockAsString pos) data).erase (i64tos (getBlockAsInteger pos))

def loadBlock (w : PosWidth) (s : Store) (pos : V3) : ByteString :=
  let block := s[getBlockAsString pos]?.getD []
  if !block.isEmpty then block else s[getBlockAsStringCompatible w pos]?.getD []

def deleteBlock (s : Store) (pos : V3) : Store := s.erase (getBlockAsString pos)

def listAllLoadableBlocks (w : PosWidth) (s : Store) : List V3 := s.keys.map (getStringAsBlock w)

def step (s : Store) : BlockOp w → Option (Store × BlockAnswer)
  | .saveBlock pos data => some (saveBlock s pos.1 data, .ok)
  | .loadBlock pos => some (s, .block (loadBlock w s pos.1))
  | .deleteBlock pos => some (deleteBlock s pos.1, .ok)
  | .listAllLoadableBlocks => some (s, .positions {p | p ∈ listAllLoadableBlocks w s})

def machine (w : PosWidth) (s : Store) : Machine Store (BlockOp w) BlockAnswer := ⟨s, step⟩

end LevelDB

/-! ### A plain map -/

abbrev PlainMap (w : PosWidth) := Bpos w → Option ByteString

namespace PlainMap

variable {w : PosWidth}

open Classical in
noncomputable def step (m : PlainMap w) : BlockOp w → Option (PlainMap w × BlockAnswer)
  | .saveBlock pos data => some (Function.update m pos (some data), .ok)
  | .loadBlock pos => some (m, .block ((m pos).getD []))
  | .deleteBlock pos => some (Function.update m pos none, .ok)
  | .listAllLoadableBlocks => some (m, .positions {p | ∃ h, (m ⟨p, h⟩).isSome = true})

noncomputable def machine (m : PlainMap w) : Machine (PlainMap w) (BlockOp w) BlockAnswer :=
  ⟨m, step⟩

end PlainMap

namespace LevelDB

variable {w : PosWidth}

def oldKey (pos : V3) : ByteString := decimalInt (getBlockAsInteger pos)

def Wf (w : PosWidth) (s : Store) : Prop :=
  ∀ k ∈ s, (∃ p : Bpos w, k = getBlockAsString p.1) ∨ ∃ p, Packed p ∧ k = oldKey p

/-- What is stored of a position: its block, else the one of the old format. -/
def content (w : PosWidth) (s : Store) : PlainMap w := fun p =>
  s[getBlockAsString p.1]?.or (if Packed p.1 then s[oldKey p.1]? else none)

/-- An operation after which the store has what a plain map would have, with the same answer. -/
def Faithful (s : Store) (op : BlockOp w) : Prop :=
  ∀ s' a, step s op = some (s', a) → PlainMap.step (content w s) op = some (content w s', a)

/-- A block of the old format keeps out of the way: it has no key that is deleted for another
position, it is not hidden behind an empty new block or by its position, and it is not there when
its position is deleted. With 16 bits only the origin is listed for new blocks. -/
def Safe (s : Store) : BlockOp w → Prop
  | .saveBlock pos _ => ∀ q, Packed q → q ≠ pos.1 →
      oldKey q = i64tos (getBlockAsInteger pos.1) → oldKey q ∈ s → getBlockAsString q ∈ s
  | .loadBlock pos => Packed pos.1 → ∀ old, s[oldKey pos.1]? = some old → old ≠ [] →
      if w = .pos32 ∧ InLimit pos.1 then s[getBlockAsString pos.1]? ≠ some []
      else getBlockAsString pos.1 ∈ s
  | .deleteBlock pos => Packed pos.1 → oldKey pos.1 ∉ s
  | .listAllLoadableBlocks => w = .pos32 ∨ ∀ p : Bpos w, getBlockAsString p.1 ∈ s →
      (p.1 = ⟨0, 0, 0⟩ ∨ Packed p.1 ∧ oldKey p.1 ∈ s) ∧
        (getBlockAsString ⟨0, 0, 0⟩ ∈ s ∨ oldKey ⟨0, 0, 0⟩ ∈ s)

section Keys

variable {s : Store} {p q : V3} {pos : Bpos w} {data : ByteString}

/-- What is deleted for the old format is never a new key. -/
theorem i64tos_ne_string (n : ℤ) (p : V3) : i64tos n ≠ getBlockAsString p := by
  obtain ⟨c, cs, hcs, hc⟩ := decimal_eq_cons (n % 2 ^ 64).toNat
  intro h
  rw [i64tos, hcs] at h
  rw [(List.cons.inj h).1] at hc
  cases hc

theorem getElem?_saveBlock (k : ByteString) : (saveBlock s p data)[k]? =
    if k = i64tos (getBlockAsInteger p) then none
    else if k = getBlockAsString p then some data else s[k]? := by
  rw [saveBlock, ExtTreeMap.getElem?_erase, ExtTreeMap.getElem?_insert]
  simp only [LawfulEqCmp.compare_eq_iff_eq, eq_comm (b := k)]

theorem getElem?_deleteBlock (k : ByteString) :
    (deleteBlock s p)[k]? = if k = getBlockAsString p then none else s[k]? := by
  rw [deleteBlock, ExtTreeMap.getElem?_erase]
  simp only [LawfulEqCmp.compare_eq_iff_eq, eq_comm (b := k)]

theorem wf_saveBlock (h : Wf w s) : Wf w (saveBlock s pos.1 data) := by
  intro k hk
  rw [ExtTreeMap.mem_iff_isSome_getElem?, getElem?_saveBlock] at hk
  split_ifs at hk with hold hnew
  · cases hk
  · exact Or.inl ⟨pos, hnew⟩
  · exact h k (ExtTreeMap.mem_iff_isSome_getElem?.mpr hk)

theorem wf_deleteBlock (h : Wf w s) : Wf w (deleteBlock s pos.1) := by
  intro k hk
  rw [ExtTreeMap.mem_iff_isSome_getElem?, getElem?_deleteBlock] at hk
  split_ifs at hk
  · cases hk
  · exact h k (ExtTreeMap.mem_iff_isSome_getElem?.mpr hk)

theorem wf_step {op : BlockOp w} {x : Store × BlockAnswer} (h : Wf w s)
    (hstep : step s op = some x) : Wf w x.1 := by
  cases op with
  | saveBlock pos data => exact Option.some.inj hstep ▸ wf_saveBlock h
  | loadBlock pos => exact Option.some.inj hstep ▸ h
  | deleteBlock pos => exact Option.some.inj hstep ▸ wf_deleteBlock h
  | listAllLoadableBlocks => exact Option.some.inj hstep ▸ h

theorem mem_iff_ne_none {k : ByteString} : k ∈ s ↔ s[k]? ≠ none := by
  rw [ExtTreeMap.mem_iff_isSome_getElem?, Option.isSome_iff_ne_none]

/-- A position has a block under one of its keys. -/
theorem isSome_content (p : Bpos w) : (content w s p).isSome = true ↔
    getBlockAsString p.1 ∈ s ∨ Packed p.1 ∧ oldKey p.1 ∈ s := by
  unfold content
  rw [Option.isSome_or, Bool.or_eq_true, ← ExtTreeMap.mem_iff_isSome_getElem?]
  refine or_congr_right ?_
  split_ifs with hp
  · simp [hp]
  · simp [hp]

theorem saveBlock_string (q : V3) : (saveBlock s p data)[getBlockAsString q]? =
    if q = p then some data else s[getBlockAsString q]? := by
  rw [getElem?_saveBlock, if_neg fun h => i64tos_ne_string _ _ h.symm]
  by_cases hq : q = p
  · rw [if_pos hq, hq, if_pos rfl]
  · rw [if_neg hq, if_neg fun h => hq (getBlockAsString_inj h)]

theorem saveBlock_oldKey (q : V3) : (saveBlock s p data)[oldKey q]? =
    if oldKey q = i64tos (getBlockAsInteger p) then none else s[oldKey q]? := by
  rw [getElem?_saveBlock]
  split_ifs with hold hnew
  · rfl
  · exact absurd hnew.symm (getBlockAsString_ne_integer _ _)
  · rfl

theorem deleteBlock_string (q : V3) : (deleteBlock s p)[getBlockAsString q]? =
    if q = p then none else s[getBlockAsString q]? := by
  rw [getElem?_deleteBlock]
  by_cases hq : q = p
  · rw [if_pos hq, hq, if_pos rfl]
  · rw [if_neg hq, if_neg fun h => hq (getBlockAsString_inj h)]

theorem deleteBlock_oldKey (q : V3) : (deleteBlock s p)[oldKey q]? = s[oldKey q]? := by
  rw [getElem?_deleteBlock]
  exact if_neg fun h => getBlockAsString_ne_integer _ _ h.symm

theorem content_saveBlock (pos : Bpos w) : content w (saveBlock s pos.1 data) pos = some data := by
  rw [content, saveBlock_string, if_pos rfl, Option.some_or]

/-- Saving another position leaves the content, unless it takes the only key. -/
theorem content_saveBlock_of_ne {pos p : Bpos w} (hne : p ≠ pos) :
    content w (saveBlock s pos.1 data) p = content w s p ↔
      (Packed p.1 → oldKey p.1 = i64tos (getBlockAsInteger pos.1) → oldKey p.1 ∈ s →
        getBlockAsString p.1 ∈ s) := by
  have hval : p.1 ≠ pos.1 := fun h => hne (Subtype.ext h)
  rw [content, content, saveBlock_string, if_neg hval, saveBlock_oldKey]
  by_cases hpacked : Packed p.1
  · rw [if_pos hpacked, if_pos hpacked]
    by_cases hold : oldKey p.1 = i64tos (getBlockAsInteger pos.1)
    · rw [if_pos hold]
      simp only [hpacked, hold, mem_iff_ne_none, forall_const]
      cases s[getBlockAsString p.1]? <;> cases s[i64tos (getBlockAsInteger pos.1)]? <;> simp
    · rw [if_neg hold]
      exact iff_of_true rfl fun _ h => absurd h hold
  · rw [if_neg hpacked, if_neg hpacked]
    exact iff_of_true rfl fun h => absurd h hpacked

theorem faithful_saveBlock_iff (pos : Bpos w) (data : ByteString) :
    Faithful s (.saveBlock pos data) ↔ Safe s (.saveBlock pos data) := by
  have heq : Faithful s (.saveBlock pos data) ↔
      ∀ p, Function.update (content w s) pos (some data) p =
        content w (saveBlock s pos.1 data) p := by
    constructor
    · intro h
      have := (Prod.mk.inj (Option.some.inj (h _ _ rfl))).1
      exact fun p => congrFun this p
    · intro h s' a hstep
      obtain ⟨rfl, rfl⟩ := Prod.mk.inj (Option.some.inj hstep)
      exact congrArg (fun m => some (m, BlockAnswer.ok)) (funext h)
  rw [heq]
  constructor
  · intro h q hq hne hold hmem
    have hne' : (⟨q, hq.inRange w⟩ : Bpos w) ≠ pos := fun he => hne (congrArg Subtype.val he)
    have hsame := h ⟨q, hq.inRange w⟩
    rw [Function.update_of_ne hne'] at hsame
    exact (content_saveBlock_of_ne hne').mp hsame.symm hq hold hmem
  · intro h p
    by_cases hp : p = pos
    · rw [hp, Function.update_self, content_saveBlock]
    · rw [Function.update_of_ne hp]
      exact ((content_saveBlock_of_ne hp).mpr fun hpacked hold hmem =>
        h p.1 hpacked (fun he => hp (Subtype.ext he)) hold hmem).symm

theorem faithful_deleteBlock_iff (pos : Bpos w) :
    Faithful s (.deleteBlock pos) ↔ Safe s (.deleteBlock pos) := by
  have heq : Faithful s (.deleteBlock pos) ↔
      ∀ p, Function.update (content w s) pos none p = content w (deleteBlock s pos.1) p := by
    constructor
    · intro h
      have := (Prod.mk.inj (Option.some.inj (h _ _ rfl))).1
      exact fun p => congrFun this p
    · intro h s' a hstep
      obtain ⟨rfl, rfl⟩ := Prod.mk.inj (Option.some.inj hstep)
      exact congrArg (fun m => some (m, BlockAnswer.ok)) (funext h)
  rw [heq]
  constructor
  · intro h hpacked hmem
    have hpos := h pos
    rw [Function.update_self, content, deleteBlock_string, if_pos rfl, deleteBlock_oldKey,
      if_pos hpacked, Option.none_or] at hpos
    exact mem_iff_ne_none.mp hmem hpos.symm
  · intro h p
    rw [content, deleteBlock_string, deleteBlock_oldKey]
    by_cases hp : p = pos
    · subst hp
      rw [Function.update_self, if_pos rfl, Option.none_or]
      split_ifs with hpacked
      · by_contra hne
        exact h hpacked (mem_iff_ne_none.mpr (Ne.symm hne))
      · rfl
    · rw [Function.update_of_ne hp, if_neg fun h => hp (Subtype.ext h)]
      rfl

theorem compatible_eq (w : PosWidth) (p : V3) : getBlockAsStringCompatible w p =
    if w = .pos32 ∧ InLimit p then oldKey p else getBlockAsString p := by
  unfold getBlockAsStringCompatible
  cases w with
  | pos16 => simp
  | pos32 => simp [oldKey]

/-- What is loaded: the new block, unless it is empty, then the one under the other key. -/
theorem faithful_loadBlock_iff (pos : Bpos w) :
    Faithful s (.loadBlock pos) ↔ Safe s (.loadBlock pos) := by
  have heq : Faithful s (.loadBlock pos) ↔
      (content w s pos).getD [] = loadBlock w s pos.1 := by
    constructor
    · intro h
      injection h _ _ rfl with h
      injection h with _ h
      injection h
    · intro h s' a hstep
      obtain ⟨rfl, rfl⟩ := Prod.mk.inj (Option.some.inj hstep)
      exact congrArg (fun b => some (content w s, BlockAnswer.block b)) h
  rw [heq, content, loadBlock, compatible_eq, Safe]
  by_cases hcovered : w = .pos32 ∧ InLimit pos.1
  · have hpacked : Packed pos.1 := hcovered.2.packed
    rw [if_pos hcovered, if_pos hpacked]
    simp only [if_pos hcovered, hpacked, forall_const]
    cases hnew : s[getBlockAsString pos.1]? with
    | none => simp
    | some block =>
      cases block with
      | cons b bs => simp
      | nil =>
        cases hold : s[oldKey pos.1]? with
        | none => simp
        | some old => cases old <;> simp
  · rw [if_neg hcovered]
    simp only [if_neg hcovered, mem_iff_ne_none]
    cases hnew : s[getBlockAsString pos.1]? with
    | some block => cases block <;> simp
    | none =>
      by_cases hpacked : Packed pos.1
      · simp only [hpacked, if_true, forall_const]
        cases hold : s[oldKey pos.1]? with
        | none => simp
        | some old => cases old <;> simp
      · simp [hpacked]

theorem mem_listAllLoadableBlocks (h : Wf w s) : q ∈ listAllLoadableBlocks w s ↔
    (∃ p : Bpos w, getBlockAsString p.1 ∈ s ∧ getStringAsBlock w (getBlockAsString p.1) = q) ∨
      Packed q ∧ oldKey q ∈ s := by
  rw [listAllLoadableBlocks, List.mem_map]
  constructor
  · intro ⟨k, hk, hq⟩
    rw [ExtTreeMap.mem_keys] at hk
    rcases h k hk with ⟨p, rfl⟩ | ⟨p, hp, rfl⟩
    · exact Or.inl ⟨p, hk, hq⟩
    · rw [oldKey, getStringAsBlock_integer w hp] at hq
      exact Or.inr (hq ▸ ⟨hp, hk⟩)
  · rintro (⟨p, hk, hq⟩ | ⟨hq, hk⟩)
    · exact ⟨_, ExtTreeMap.mem_keys.mpr hk, hq⟩
    · exact ⟨_, ExtTreeMap.mem_keys.mpr hk, getStringAsBlock_integer w hq⟩

theorem mem_stored (q : V3) : (∃ h, (content w s ⟨q, h⟩).isSome = true) ↔
    (w.InRange q ∧ getBlockAsString q ∈ s) ∨ Packed q ∧ oldKey q ∈ s := by
  simp only [isSome_content]
  constructor
  · intro ⟨h, hor⟩
    exact hor.imp_left fun hk => ⟨h, hk⟩
  · rintro (⟨h, hk⟩ | ⟨hq, hk⟩)
    · exact ⟨h, Or.inl hk⟩
    · exact ⟨hq.inRange w, Or.inr ⟨hq, hk⟩⟩

theorem faithful_list_iff (h : Wf w s) :
    Faithful s (.listAllLoadableBlocks : BlockOp w) ↔
      Safe s (.listAllLoadableBlocks : BlockOp w) := by
  have heq : Faithful s (.listAllLoadableBlocks : BlockOp w) ↔
      ∀ q, (∃ h, (content w s ⟨q, h⟩).isSome = true) ↔ q ∈ listAllLoadableBlocks w s := by
    constructor
    · intro h
      injection h _ _ rfl with h
      injection h with _ h
      injection h with h
      exact fun q => Set.ext_iff.mp h q
    · intro h s' a hstep
      obtain ⟨rfl, rfl⟩ := Prod.mk.inj (Option.some.inj hstep)
      exact congrArg (fun ps => some (content w s, BlockAnswer.positions ps)) (Set.ext h)
  rw [heq]
  simp only [mem_stored, mem_listAllLoadableBlocks h]
  cases w with
  | pos32 =>
    refine iff_of_true (fun q => or_congr_left ⟨?_, ?_⟩) (Or.inl rfl)
    · exact fun ⟨hq, hk⟩ => ⟨⟨q, hq⟩, hk, getStringAsBlock_string hq⟩
    · rintro ⟨p, hk, rfl⟩
      rw [getStringAsBlock_string p.2]
      exact ⟨p.2, hk⟩
  | pos16 =>
    -- every new key is decoded to the origin
    simp only [getStringAsBlock_string_pos16]
    have hzero : PosWidth.pos16.InRange ⟨0, 0, 0⟩ := Packed.inRange (by decide) .pos16
    constructor
    · intro hall
      refine Or.inr fun p hk => ⟨?_, ?_⟩
      · rcases (hall p.1).mp (Or.inl ⟨p.2, hk⟩) with ⟨_, _, h0⟩ | hold
        · exact Or.inl h0.symm
        · exact Or.inr hold
      · exact ((hall ⟨0, 0, 0⟩).mpr (Or.inl ⟨p, hk, rfl⟩)).imp And.right And.right
    · intro hor
      have hsafe := hor.resolve_left (by decide)
      intro q
      constructor
      · rintro (⟨hq, hk⟩ | hold)
        · rcases (hsafe ⟨q, hq⟩ hk).1 with h0 | hold
          · exact Or.inl ⟨⟨q, hq⟩, hk, h0.symm⟩
          · exact Or.inr hold
        · exact Or.inr hold
      · rintro (⟨p, hk, rfl⟩ | hold)
        · exact (hsafe p hk).2.imp (fun h0 => ⟨hzero, h0⟩) fun h0 => ⟨by decide, h0⟩
        · exact Or.inr hold

theorem faithful_iff_safe (h : Wf w s) (op : BlockOp w) : Faithful s op ↔ Safe s op := by
  cases op with
  | saveBlock pos data => exact faithful_saveBlock_iff pos data
  | loadBlock pos => exact faithful_loadBlock_iff pos
  | deleteBlock pos => exact faithful_deleteBlock_iff pos
  | listAllLoadableBlocks => exact faithful_list_iff h

/-- Each step of a run is that of a plain map just when each is safe, and then all answers are
those of a plain map. -/
theorem answers_eq_plainMap (w : PosWidth) (s : Store) (h : Wf w s) (ops : List (BlockOp w)) :
    ((machine w s).Allowed Faithful s ops ↔ (machine w s).Allowed Safe s ops) ∧
      ((machine w s).Allowed Safe s ops →
        (machine w s).answers ops = (PlainMap.machine (content w s)).answers ops) := by
  have hiff := Machine.allowed_congr (M := machine w s) (fun s op x hs hx => wf_step hs hx)
    (fun s op hs => faithful_iff_safe hs op) ops h
  refine ⟨hiff, fun hsafe => ?_⟩
  refine Machine.answers_of_agree (R := fun s m => Wf w s ∧ m = content w s) ?_ ⟨h, rfl⟩ hsafe
  intro s m op ⟨hs, hm⟩ hop
  subst hm
  cases hx : step s op with
  | none => cases op <;> cases hx
  | some x =>
    have hstep := (faithful_iff_safe hs op).mpr hop x.1 x.2 hx
    change Machine.Agree _ (step s op) (PlainMap.step (content w s) op)
    rw [hx, hstep]
    exact ⟨⟨wf_step hs hx, rfl⟩, rfl⟩

end Keys

/-! ### A block that comes back -/

def oldStore : Store := (∅ : Store).insert (oldKey ⟨0, 0, 0⟩) [7]

def origin : Bpos .pos32 := ⟨⟨0, 0, 0⟩, Packed.inRange (by decide) .pos32⟩

theorem wf_oldStore : Wf .pos32 oldStore := by
  intro k hk
  rw [oldStore, ExtTreeMap.mem_insert] at hk
  rcases hk with heq | hin
  · exact Or.inr ⟨⟨0, 0, 0⟩, by decide, (LawfulEqCmp.eq_of_compare heq).symm⟩
  · exact absurd hin ExtTreeMap.not_mem_empty

theorem answers_eq_plainMap_oldStore :
    ((machine .pos32 oldStore).Allowed Faithful oldStore
        [.saveBlock origin [8], .deleteBlock origin, .loadBlock origin] ↔
      (machine .pos32 oldStore).Allowed Safe oldStore
        [.saveBlock origin [8], .deleteBlock origin, .loadBlock origin]) ∧
      ((machine .pos32 oldStore).Allowed Safe oldStore
          [.saveBlock origin [8], .deleteBlock origin, .loadBlock origin] →
        (machine .pos32 oldStore).answers
            [.saveBlock origin [8], .deleteBlock origin, .loadBlock origin] =
          (PlainMap.machine (content .pos32 oldStore)).answers
            [.saveBlock origin [8], .deleteBlock origin, .loadBlock origin]) :=
  answers_eq_plainMap .pos32 oldStore wf_oldStore
    [.saveBlock origin [8], .deleteBlock origin, .loadBlock origin]

/-- A deleted block is loaded again. -/
theorem not_answers_eq_plainMap : Wf .pos32 oldStore ∧
    (machine .pos32 oldStore).answers [.deleteBlock origin, .loadBlock origin] ≠
      (PlainMap.machine (content .pos32 oldStore)).answers
        [.deleteBlock origin, .loadBlock origin] := by
  refine ⟨wf_oldStore, fun heq => ?_⟩
  have hload : loadBlock .pos32 (deleteBlock oldStore origin.1) origin.1 = [7] := by
    decide +kernel
  have hstore : (machine .pos32 oldStore).answers [.deleteBlock origin, .loadBlock origin] =
      some [.ok, .block [7]] := by
    rw [← hload]
    rfl
  have hplain : (PlainMap.machine (content .pos32 oldStore)).answers
      [.deleteBlock origin, .loadBlock origin] = some [.ok, .block []] := by
    change some [BlockAnswer.ok, .block ((Function.update (content .pos32 oldStore) origin none
      origin).getD [])] = _
    rw [Function.update_self]
    rfl
  rw [hstore, hplain] at heq
  injection heq with heq
  injection heq with _ heq
  injection heq with heq _
  injection heq with heq
  cases heq

end LevelDB

end Freeminer.Database
