import Freeminer.Lib.HashOrder
import Freeminer.Util.JsonString

/-! `LBMManager` (`blockmodifier.cpp`): loading block modifiers, by the time at which each was
introduced to the world, and the text in which these times are saved. -/

namespace Freeminer.Server

open Lib

structure LoadingBlockModifierDef where
  name : ByteString
  run_at_every_load : Bool := false
  deriving DecidableEq

def LBM_NAME_ALLOWED_CHARS : ByteString := bytes "abcdefghijklmnopqrstuvwxyz0123456789_:"

def U32_MAX : UInt32 := 0xffffffff

/-- `m_lbm_defs` -/
abbrev LBMDefs := Finmap fun _ : ByteString => LoadingBlockModifierDef

/-- `m_lbm_lookup`, in the order of its keys. -/
abbrev LBMLookup := List (UInt32 × List LoadingBlockModifierDef)

/-- What `parseIntroductionTimesString` returns. -/
abbrev IntroductionTimes := Finmap fun _ : ByteString => UInt32

def stripColon : ByteString → ByteString
  | 58 :: name => name
  | name => name

/-- `addLBMDef`, or the text of its error. -/
def addLBMDef (defs : LBMDefs) (lbm_def : LoadingBlockModifierDef) : Except ByteString LBMDefs :=
  let lbm_def := { lbm_def with name := stripColon lbm_def.name }
  if lbm_def.name = [] ∨ lbm_def.name.all LBM_NAME_ALLOWED_CHARS.contains = false then
    .error (bytes "Error adding LBM \"" ++ lbm_def.name ++ bytes ("\": Does not follow naming " ++
      "conventions: Only characters [a-z0-9_:] are allowed."))
  else .ok (defs.insert lbm_def.name lbm_def)

def registerLBMs (regs : List LoadingBlockModifierDef) : Except ByteString LBMDefs :=
  regs.foldlM addLBMDef ∅

namespace LBMLookup

/-- `operator[]` of the map, with what is done to the value. -/
def upsert (time : UInt32) (f : List LoadingBlockModifierDef → List LoadingBlockModifierDef) :
    LBMLookup → LBMLookup
  | [] => [(time, f [])]
  | (t, l) :: rest =>
    if time < t then (time, f []) :: (t, l) :: rest
    else if t = time then (t, f l) :: rest
    else (t, l) :: upsert time f rest

def addLBM (lookup : LBMLookup) (time : UInt32) (lbm_def : LoadingBlockModifierDef) : LBMLookup :=
  lookup.upsert time fun l => l ++ [lbm_def]

def eraseEmpty (lookup : LBMLookup) (time : UInt32) : LBMLookup :=
  lookup.filter fun e => !(decide (e.1 = time) && e.2.isEmpty)

/-- The modifiers whose times are saved, in the order in which they are written. -/
def saved (lookup : LBMLookup) : List (ByteString × UInt32) :=
  lookup.flatMap fun e =>
    (e.2.filter fun lbm_def => !lbm_def.run_at_every_load).map fun lbm_def => (lbm_def.name, e.1)

def createIntroductionTimesString (lookup : LBMLookup) : ByteString :=
  lookup.saved.flatMap fun e => e.1 ++ 126 :: (decimal e.2.toNat ++ [59])

end LBMLookup

/-- One entry of the introduction times; `uninit` is what an unread number holds. -/
def parseIntroductionTime (uninit : UInt32) (entry : ByteString) :
    Except LoadError (ByteString × UInt32) :=
  match strSplit entry 126 with
  | [name, time] =>
    if name = [] then .error (.serialization (bytes "LBM name is empty"))
    else
      .ok (stripColon name,
        UInt32.ofNat (IStream.readUnsigned { rest := time } 32 uninit.toNat).1)
  | _ =>
    .error (.serialization (bytes "Introduction times entry \"" ++ entry ++
      bytes "\" requires exactly one '~'!"))

/-- `parseIntroductionTimesString`: what follows the last semicolon is left. -/
def parseIntroductionTimesString (uninit : UInt32) (times : ByteString) :
    Except LoadError IntroductionTimes :=
  (times.splitOn 59).dropLast.foldlM (fun ret entry => do
    let (name, time) ← parseIntroductionTime uninit entry
    pure (ret.insert name time)) ∅

structure LBMOrders where
  times : HashOrder ByteString UInt32
  defs : HashOrder ByteString LoadingBlockModifierDef

/-- One turn of the first loop of `loadIntroductionTimes`: what is found goes to the lookup. -/
def introduceOld (now : UInt32) (s : LBMLookup × LBMDefs)
    (e : Sigma fun _ : ByteString => UInt32) : LBMLookup × LBMDefs :=
  match s.2.lookup e.1 with
  | none => s
  | some lbm_def =>
    if lbm_def.run_at_every_load then s
    -- introduced in the future: pretended to be new
    else if now < e.2 then s
    else (s.1.addLBM e.2 lbm_def, s.2.erase e.1)

def introduceNow (now : UInt32) (lookup : LBMLookup)
    (e : Sigma fun _ : ByteString => LoadingBlockModifierDef) : LBMLookup :=
  lookup.addLBM (if e.2.run_at_every_load then U32_MAX else now) e.2

/-- `loadIntroductionTimes`: the lookup that the registered modifiers get. -/
def loadIntroductionTimes (order : LBMOrders) (uninit : UInt32) (defs : LBMDefs)
    (times : ByteString) (now : UInt32) : Except LoadError LBMLookup := do
  let introduction_times ← parseIntroductionTimesString uninit times
  let (lookup, defs) := (order.times.entries introduction_times).foldl (introduceOld now) ([], defs)
  let lookup := (lookup.upsert now id).upsert U32_MAX id
  let lookup := (order.defs.entries defs).foldl (introduceNow now) lookup
  pure ((lookup.eraseEmpty now).eraseEmpty U32_MAX)

namespace LBMLookup

def Introduced (lookup : LBMLookup) (time : UInt32) (lbm_def : LoadingBlockModifierDef) : Prop :=
  ∃ l, (time, l) ∈ lookup ∧ lbm_def ∈ l

/-- Every modifier that does not run at every load keeps its introduction time. -/
def Survives (lookup lookup' : LBMLookup) : Prop :=
  ∀ lbm_def time, lbm_def.run_at_every_load = false →
    (lookup'.Introduced time lbm_def ↔ lookup.Introduced time lbm_def)

/-- Every saved time is in the past, and the text is read back as the times: a name that begins with
a colon is read from what is written for it with one more colon, any other from that and its own. -/
def NamesKept (lookup : LBMLookup) (now : UInt32) : Prop :=
  ∀ name time, (name, time) ∈ lookup.saved → time ≤ now ∧
    if name.head? = some 58 then
      (∀ time', (58 :: name, time') ∈ lookup.saved →
        time' = time ∨ (now < time' ∧ time = now)) ∧
        ((∀ time', (58 :: name, time') ∉ lookup.saved) → time = now)
    else ∀ time', (58 :: name, time') ∈ lookup.saved → time' ≤ time ∨ time = now

end LBMLookup

/-! Introduction times survive a restart exactly when no colon is lost in the text
(`blockmodifier.cpp`). -/

local instance linearOrderUInt32 : LinearOrder UInt32 where
  le_refl := UInt32.le_refl
  le_trans _ _ _ := UInt32.le_trans
  le_antisymm _ _ := UInt32.le_antisymm
  le_total := UInt32.le_total
  lt_iff_le_not_ge a b := by
    rw [UInt32.lt_iff_toNat_lt, UInt32.le_iff_toNat_le, UInt32.le_iff_toNat_le]
    omega
  toDecidableLE := inferInstance
  toDecidableLT := inferInstance

variable {regs : List LoadingBlockModifierDef} {defs defs' : LBMDefs} {lbm_def d : LoadingBlockModifierDef}
  {lookup : LBMLookup} {time t now : UInt32} {name n : ByteString}

/-! ## Registration -/

/-- Each modifier is kept under its own name, which the registration accepts. -/
def LBMDefs.Accepted (defs : LBMDefs) : Prop :=
  ∀ name lbm_def, defs.lookup name = some lbm_def →
    lbm_def.name = name ∧ name ≠ [] ∧ ∀ c ∈ name, c ∈ LBM_NAME_ALLOWED_CHARS

theorem LBMDefs.Accepted.addLBMDef (h : LBMDefs.Accepted defs)
    (hadd : addLBMDef defs lbm_def = .ok defs') : LBMDefs.Accepted defs' := by
  unfold Server.addLBMDef at hadd
  dsimp only at hadd
  split_ifs at hadd with hbad
  injection hadd with hadd
  subst hadd
  rw [not_or] at hbad
  intro n d hd
  by_cases hn : n = stripColon lbm_def.name
  · subst hn
    rw [Finmap.lookup_insert, Option.some.injEq] at hd
    subst hd
    refine ⟨rfl, hbad.1, fun c hc => ?_⟩
    have hall := hbad.2
    rw [Bool.not_eq_false, List.all_eq_true] at hall
    exact List.contains_iff_mem.mp (hall c hc)
  · rw [Finmap.lookup_insert_of_ne _ hn] at hd
    exact h n d hd

theorem LBMDefs.Accepted.foldlM (h : LBMDefs.Accepted defs)
    (hregs : regs.foldlM Server.addLBMDef defs = .ok defs') : LBMDefs.Accepted defs' := by
  induction regs generalizing defs with
  | nil =>
    injection hregs with hregs
    exact hregs ▸ h
  | cons lbm_def regs ih =>
    rw [List.foldlM_cons] at hregs
    cases hadd : Server.addLBMDef defs lbm_def with
    | error e =>
      rw [hadd] at hregs
      cases hregs
    | ok defs₁ =>
      rw [hadd] at hregs
      exact ih (h.addLBMDef hadd) hregs

theorem registerLBMs_accepted (h : registerLBMs regs = .ok defs) : LBMDefs.Accepted defs := by
  have hnone : LBMDefs.Accepted ∅ := by
    intro n d hd
    rw [Finmap.lookup_empty] at hd
    cases hd
  exact hnone.foldlM h

/-! ## The lookup -/

namespace LBMLookup

def Ordered (lookup : LBMLookup) : Prop := lookup.Pairwise fun e e' => e.1 < e'.1

theorem introduced_cons {l : List LoadingBlockModifierDef} :
    Introduced ((t, l) :: lookup) time d ↔
      (time = t ∧ d ∈ l) ∨ Introduced lookup time d := by
  unfold Introduced
  simp only [List.mem_cons, Prod.mk.injEq]
  constructor
  · intro ⟨l', hl', hd⟩
    cases hl' with
    | inl heq => exact .inl ⟨heq.1, heq.2 ▸ hd⟩
    | inr hmem => exact .inr ⟨l', hmem, hd⟩
  · intro h
    cases h with
    | inl h => exact ⟨l, .inl ⟨h.1, rfl⟩, h.2⟩
    | inr h =>
      obtain ⟨l', hl', hd⟩ := h
      exact ⟨l', .inr hl', hd⟩

/-- What is added to the entry of a time is introduced then. -/
theorem introduced_upsert {added : List LoadingBlockModifierDef} :
    Introduced (lookup.upsert t (· ++ added)) time d ↔
      Introduced lookup time d ∨ (time = t ∧ d ∈ added) := by
  induction lookup with
  | nil => simp [upsert, Introduced, and_assoc]
  | cons e lookup ih =>
    obtain ⟨t₀, l⟩ := e
    unfold upsert
    split_ifs with hlt heq
    · rw [introduced_cons, List.nil_append, or_comm]
    · subst heq
      rw [introduced_cons, introduced_cons, List.mem_append]
      tauto
    · rw [introduced_cons, introduced_cons, ih, or_assoc]

theorem introduced_addLBM :
    Introduced (lookup.addLBM t lbm_def) time d ↔
      Introduced lookup time d ∨ (time = t ∧ d = lbm_def) := by
  rw [addLBM, introduced_upsert, List.mem_singleton]

theorem introduced_touch :
    Introduced (lookup.upsert t id) time d ↔ Introduced lookup time d := by
  have hid : (id : List LoadingBlockModifierDef → _) = (· ++ []) := by
    funext l
    simp
  rw [hid, introduced_upsert]
  simp

theorem introduced_eraseEmpty :
    Introduced (lookup.eraseEmpty t) time d ↔ Introduced lookup time d := by
  unfold Introduced eraseEmpty
  refine exists_congr fun l => ?_
  rw [List.mem_filter, and_assoc]
  refine and_congr_right fun _ => ⟨And.right, fun hd => ⟨?_, hd⟩⟩
  have hne : l.isEmpty = false := by
    rw [List.isEmpty_eq_false_iff]
    exact List.ne_nil_of_mem hd
  simp [hne]

theorem lt_of_mem_upsert {f : List LoadingBlockModifierDef → List LoadingBlockModifierDef}
    {e : UInt32 × List LoadingBlockModifierDef} (ht : time < t) (h : ∀ e ∈ lookup, time < e.1)
    (he : e ∈ lookup.upsert t f) : time < e.1 := by
  induction lookup with
  | nil =>
    rw [upsert, List.mem_singleton] at he
    exact he ▸ ht
  | cons e₀ lookup ih =>
    obtain ⟨t₀, l⟩ := e₀
    have ih := ih fun e he => h e (List.mem_cons_of_mem _ he)
    have h₀ : time < t₀ := h (t₀, l) List.mem_cons_self
    unfold upsert at he
    split_ifs at he with hlt heq
    · cases he with
      | head => exact ht
      | tail _ he => exact h e he
    · cases he with
      | head => exact h₀
      | tail _ he => exact h e (List.mem_cons_of_mem _ he)
    · cases he with
      | head => exact h₀
      | tail _ he => exact ih he

theorem Ordered.upsert (h : Ordered lookup) (t : UInt32)
    (f : List LoadingBlockModifierDef → List LoadingBlockModifierDef) :
    Ordered (lookup.upsert t f) := by
  induction lookup with
  | nil => exact List.pairwise_singleton _ _
  | cons e lookup ih =>
    obtain ⟨t₀, l⟩ := e
    obtain ⟨hhead, htail⟩ := List.pairwise_cons.mp h
    unfold LBMLookup.upsert
    split_ifs with hlt heq
    · refine List.pairwise_cons.mpr ⟨fun e he => ?_, h⟩
      cases he with
      | head => exact hlt
      | tail _ he => exact hlt.trans (hhead e he)
    · exact List.pairwise_cons.mpr ⟨fun e he => heq ▸ hhead e he, htail⟩
    · refine List.pairwise_cons.mpr ⟨fun e he => ?_, ih htail⟩
      have ht : t₀ < t := lt_of_le_of_ne (not_lt.mp hlt) heq
      exact lt_of_mem_upsert ht hhead he

theorem Ordered.eraseEmpty (h : Ordered lookup) (t : UInt32) : Ordered (lookup.eraseEmpty t) :=
  h.filter _

theorem mem_saved :
    (name, time) ∈ lookup.saved ↔
      ∃ d, lookup.Introduced time d ∧ d.run_at_every_load = false ∧ d.name = name := by
  unfold saved Introduced
  simp only [List.mem_flatMap, List.mem_map, List.mem_filter, Prod.mk.injEq, Bool.not_eq_true']
  constructor
  · intro ⟨e, he, d, ⟨hd, halways⟩, hname, htime⟩
    exact ⟨d, ⟨e.2, htime ▸ he, hd⟩, halways, hname⟩
  · intro ⟨d, ⟨l, hl, hd⟩, halways, hname⟩
    exact ⟨(time, l), hl, d, ⟨hd, halways⟩, hname, rfl⟩

/-- Times are written from the first to the last. -/
theorem Ordered.saved (h : Ordered lookup) :
    lookup.saved.Pairwise fun e e' => e.2 ≤ e'.2 := by
  induction lookup with
  | nil => exact List.Pairwise.nil
  | cons e lookup ih =>
    obtain ⟨hhead, htail⟩ := List.pairwise_cons.mp h
    unfold LBMLookup.saved at ih ⊢
    rw [List.flatMap_cons, List.pairwise_append]
    refine ⟨?_, ih htail, fun a ha b hb => ?_⟩
    · refine List.pairwise_map.mpr (List.Pairwise.imp (fun _ => ?_) (List.pairwise_of_forall
        (R := fun _ _ => True) fun _ _ => trivial))
      exact le_refl _
    · obtain ⟨d, -, rfl⟩ := List.mem_map.mp ha
      obtain ⟨e', he', hb⟩ := List.mem_flatMap.mp hb
      obtain ⟨d', -, rfl⟩ := List.mem_map.mp hb
      exact (hhead e' he').le

end LBMLookup

/-! ## Loading -/

/-- The time at which a modifier is introduced when the text holds `saved` for it. -/
def introductionTime (now : UInt32) (saved : Option UInt32) (lbm_def : LoadingBlockModifierDef) :
    UInt32 :=
  if lbm_def.run_at_every_load then U32_MAX
  else match saved with
    | some time => if time ≤ now then time else now
    | none => now

/-- What one entry of the times introduces. -/
theorem introduceOld_spec (now : UInt32) (s : LBMLookup × LBMDefs) (n₀ : ByteString) (t₀ : UInt32) :
    let s' := introduceOld now s ⟨n₀, t₀⟩
    (∀ t d, s'.1.Introduced t d ↔ s.1.Introduced t d ∨
      (t = t₀ ∧ s.2.lookup n₀ = some d ∧ d.run_at_every_load = false ∧ t₀ ≤ now)) ∧
    ∀ n d, s'.2.lookup n = some d ↔ s.2.lookup n = some d ∧
      (n = n₀ → d.run_at_every_load = false → now < t₀) := by
  dsimp only
  unfold introduceOld
  cases hfound : s.2.lookup n₀ with
  | none =>
    simp only
    refine ⟨fun t d => by simp, fun n d => ⟨fun hd => ⟨hd, fun hn => ?_⟩, And.left⟩⟩
    subst hn
    rw [hfound] at hd
    cases hd
  | some lbm_def =>
    simp only
    by_cases halways : lbm_def.run_at_every_load = true
    · rw [if_pos halways]
      refine ⟨fun t d => ⟨.inl, fun h => ?_⟩, fun n d => ⟨fun hd => ⟨hd, fun hn hd' => ?_⟩, And.left⟩⟩
      · cases h with
        | inl h => exact h
        | inr h =>
          obtain ⟨-, hd, hd', -⟩ := h
          injection hd with hd
          rw [← hd, halways] at hd'
          cases hd'
      · subst hn
        rw [hfound, Option.some.injEq] at hd
        rw [← hd, halways] at hd'
        cases hd'
    · rw [if_neg halways]
      rw [Bool.not_eq_true] at halways
      by_cases hlate : now < t₀
      · rw [if_pos hlate]
        refine ⟨fun t d => ⟨.inl, fun h => ?_⟩, fun n d => ⟨fun hd => ⟨hd, fun _ _ => hlate⟩, And.left⟩⟩
        cases h with
        | inl h => exact h
        | inr h => exact absurd hlate (not_lt.mpr h.2.2.2)
      · rw [if_neg hlate]
        refine ⟨fun t d => ?_, fun n d => ?_⟩
        · rw [LBMLookup.introduced_addLBM]
          refine or_congr_right ⟨fun h => ?_, fun h => ⟨h.1, ?_⟩⟩
          · exact ⟨h.1, h.2 ▸ rfl, h.2 ▸ halways, not_lt.mp hlate⟩
          · exact (Option.some.inj h.2.1).symm
        · by_cases hn : n = n₀
          · subst hn
            rw [Finmap.lookup_erase, hfound]
            refine ⟨fun hd => absurd hd (Option.some_ne_none d).symm, fun h => ?_⟩
            have hd := Option.some.inj h.1
            exact absurd (h.2 rfl (hd ▸ halways)) hlate
          · rw [Finmap.lookup_erase_ne hn]
            exact ⟨fun hd => ⟨hd, fun h => absurd h hn⟩, And.left⟩

theorem foldl_introduceOld {es : List (Sigma fun _ : ByteString => UInt32)} (h : es.NodupKeys)
    (now : UInt32) (s : LBMLookup × LBMDefs) :
    let s' := es.foldl (introduceOld now) s
    (∀ t d, s'.1.Introduced t d ↔ s.1.Introduced t d ∨
      ∃ n, ⟨n, t⟩ ∈ es ∧ s.2.lookup n = some d ∧ d.run_at_every_load = false ∧ t ≤ now) ∧
    ∀ n d, s'.2.lookup n = some d ↔ s.2.lookup n = some d ∧
      ∀ t, ⟨n, t⟩ ∈ es → d.run_at_every_load = false → now < t := by
  induction es generalizing s with
  | nil => simp
  | cons e es ih =>
    obtain ⟨n₀, t₀⟩ := e
    obtain ⟨hfresh, hnodup⟩ := List.nodupKeys_cons.mp h
    have hother : ∀ n t, ⟨n, t⟩ ∈ es → n ≠ n₀ := by
      intro n t hmem hn
      exact hfresh (List.mem_keys.mpr ⟨t, hn ▸ hmem⟩)
    obtain ⟨hlookup₀, hdefs₀⟩ := introduceOld_spec now s n₀ t₀
    obtain ⟨hlookup, hdefs⟩ := ih hnodup (introduceOld now s ⟨n₀, t₀⟩)
    dsimp only at hlookup hdefs ⊢
    rw [List.foldl_cons]
    refine ⟨fun t d => ?_, fun n d => ?_⟩
    · rw [hlookup, hlookup₀, or_assoc]
      refine or_congr_right ⟨fun hor => ?_, fun hex => ?_⟩
      · cases hor with
        | inl hnew =>
          obtain ⟨rfl, hd, halways, hnow⟩ := hnew
          exact ⟨n₀, List.mem_cons_self, hd, halways, hnow⟩
        | inr hrest =>
          obtain ⟨n, hmem, hd, halways, hnow⟩ := hrest
          exact ⟨n, List.mem_cons_of_mem _ hmem, ((hdefs₀ n d).mp hd).1, halways, hnow⟩
      · obtain ⟨n, hmem, hd, halways, hnow⟩ := hex
        cases hmem with
        | head => exact .inl ⟨rfl, hd, halways, hnow⟩
        | tail _ hmem =>
          refine .inr ⟨n, hmem, (hdefs₀ n d).mpr ⟨hd, fun hn => ?_⟩, halways, hnow⟩
          exact absurd hn (hother n t hmem)
    · rw [hdefs, hdefs₀, and_assoc]
      refine and_congr_right fun _ => ⟨fun hand t hmem => ?_, fun hall => ⟨fun hn => ?_, fun t hmem => ?_⟩⟩
      · cases hmem with
        | head => exact hand.1 rfl
        | tail _ hmem => exact hand.2 t hmem
      · exact hall t₀ (hn ▸ List.mem_cons_self)
      · exact hall t (List.mem_cons_of_mem _ hmem)

theorem foldl_introduceNow (now : UInt32) (es : List (Sigma fun _ : ByteString => LoadingBlockModifierDef))
    (lookup : LBMLookup) :
    (es.foldl (introduceNow now) lookup).Introduced time d ↔ lookup.Introduced time d ∨
      ∃ n, ⟨n, d⟩ ∈ es ∧ time = if d.run_at_every_load then U32_MAX else now := by
  induction es generalizing lookup with
  | nil => simp
  | cons e es ih =>
    obtain ⟨n₀, d₀⟩ := e
    rw [List.foldl_cons, ih, introduceNow, LBMLookup.introduced_addLBM, or_assoc]
    refine or_congr_right ⟨fun hor => ?_, fun hex => ?_⟩
    · cases hor with
      | inl hnew => exact ⟨n₀, hnew.2 ▸ List.mem_cons_self, hnew.2 ▸ hnew.1⟩
      | inr hrest =>
        obtain ⟨n, hmem, htime⟩ := hrest
        exact ⟨n, List.mem_cons_of_mem _ hmem, htime⟩
    · obtain ⟨n, hmem, htime⟩ := hex
      cases hmem with
      | head => exact .inl ⟨htime, rfl⟩
      | tail _ hmem => exact .inr ⟨n, hmem, htime⟩

/-- A load of texts that are read gives a lookup. -/
theorem loadIntroductionTimes_eq (order : LBMOrders) (defs : LBMDefs) (now : UInt32)
    {uninit : UInt32} {times : ByteString} {read : IntroductionTimes}
    (hread : parseIntroductionTimesString uninit times = .ok read) :
    ∃ lookup, loadIntroductionTimes order uninit defs times now = .ok lookup := by
  unfold loadIntroductionTimes
  rw [hread]
  exact ⟨_, rfl⟩

/-- After a load every registered modifier is introduced once, at the time the text holds for it. -/
theorem introduced_load {order : LBMOrders} {uninit : UInt32} {times : ByteString}
    {read : IntroductionTimes} (hdefs : LBMDefs.Accepted defs)
    (hread : parseIntroductionTimesString uninit times = .ok read)
    (hload : loadIntroductionTimes order uninit defs times now = .ok lookup) :
    lookup.Introduced time d ↔ defs.lookup d.name = some d ∧
      time = introductionTime now (read.lookup d.name) d := by
  unfold loadIntroductionTimes at hload
  rw [hread] at hload
  injection hload with hload
  subst hload
  obtain ⟨hold, hleft⟩ := foldl_introduceOld (order.times.nodupKeys read) now ([], defs)
  dsimp only at hold hleft
  simp only [HashOrder.mem_entries] at hold hleft
  have hnone : ¬LBMLookup.Introduced [] time d := fun h => by
    obtain ⟨l, hl, -⟩ := h
    cases hl
  rw [LBMLookup.introduced_eraseEmpty, LBMLookup.introduced_eraseEmpty, foldl_introduceNow,
    LBMLookup.introduced_touch, LBMLookup.introduced_touch, hold, or_iff_right hnone]
  simp only [HashOrder.mem_entries, hleft]
  unfold introductionTime
  constructor
  · intro h
    cases h with
    | inl h =>
      obtain ⟨n, hn, hd, halways, hnow⟩ := h
      obtain ⟨hname, -⟩ := hdefs n d hd
      subst hname
      refine ⟨hd, ?_⟩
      simp [halways, hn, hnow]
    | inr h =>
      obtain ⟨n, ⟨hd, hlate⟩, htime⟩ := h
      obtain ⟨hname, -⟩ := hdefs n d hd
      subst hname
      refine ⟨hd, ?_⟩
      rw [htime]
      cases halways : d.run_at_every_load with
      | true => rfl
      | false =>
        cases hsaved : read.lookup d.name with
        | none => rfl
        | some t =>
          have hlate : ¬t ≤ now := not_le.mpr (hlate t hsaved halways)
          simp [hlate]
  · intro ⟨hd, htime⟩
    cases halways : d.run_at_every_load with
    | true =>
      refine .inr ⟨d.name, ⟨hd, fun t _ h => ?_⟩, ?_⟩
      · cases h
      · rw [htime, halways]
        rfl
    | false =>
      rw [halways] at htime
      cases hsaved : read.lookup d.name with
      | none =>
        refine .inr ⟨d.name, ⟨hd, fun t ht => ?_⟩, ?_⟩
        · rw [hsaved] at ht
          cases ht
        · rw [htime, hsaved]
      | some t =>
        rw [hsaved] at htime
        by_cases hnow : t ≤ now
        · have htime : time = t := by simpa [hnow] using htime
          exact .inl ⟨d.name, htime ▸ hsaved, hd, rfl, htime ▸ hnow⟩
        · have htime : time = now := by simpa [hnow] using htime
          refine .inr ⟨d.name, ⟨hd, fun t' ht' _ => ?_⟩, htime⟩
          rw [hsaved, Option.some.injEq] at ht'
          exact ht' ▸ not_le.mp hnow

theorem LBMLookup.Ordered.load {order : LBMOrders} {uninit : UInt32} {times : ByteString}
    (hload : loadIntroductionTimes order uninit defs times now = .ok lookup) :
    lookup.Ordered := by
  unfold loadIntroductionTimes at hload
  cases hread : parseIntroductionTimesString uninit times with
  | error e =>
    rw [hread] at hload
    cases hload
  | ok read =>
    rw [hread] at hload
    injection hload with hload
    subst hload
    have hold : ((order.times.entries read).foldl (introduceOld now) ([], defs)).1.Ordered := by
      refine List.foldlRecOn (motive := fun s : LBMLookup × LBMDefs => s.1.Ordered) _ _
        List.Pairwise.nil fun s hs e _ => ?_
      unfold introduceOld
      split
      · exact hs
      · split_ifs
        · exact hs
        · exact hs
        · exact hs.upsert _ _
    refine LBMLookup.Ordered.eraseEmpty (LBMLookup.Ordered.eraseEmpty ?_ _) _
    refine List.foldlRecOn (motive := LBMLookup.Ordered) _ _ ((hold.upsert _ _).upsert _ _)
      fun lookup hlookup e _ => ?_
    exact hlookup.upsert _ _

/-! ## The text -/

/-- A name that stands in the text for itself: without separators. -/
def Writable (e : ByteString × UInt32) : Prop := e.1 ≠ [] ∧ 59 ∉ e.1 ∧ 126 ∉ e.1

theorem writable_of_allowed (h : n ≠ []) (hall : ∀ c ∈ n, c ∈ LBM_NAME_ALLOWED_CHARS) :
    Writable (n, t) := by
  refine ⟨h, fun hc => ?_, fun hc => ?_⟩
  · exact absurd (hall 59 hc) (by decide)
  · exact absurd (hall 126 hc) (by decide)

/-- An entry is read back, but for a colon at its beginning. -/
theorem parseIntroductionTime_entry {e : ByteString × UInt32} (h : Writable e) (uninit : UInt32) :
    parseIntroductionTime uninit (e.1 ++ 126 :: decimal e.2.toNat) =
      .ok (stripColon e.1, e.2) := by
  obtain ⟨hne, -, htilde⟩ := h
  have hdecimal : 126 ∉ decimal e.2.toNat := notMem_decimal rfl _
  have hsplit : strSplit (e.1 ++ 126 :: decimal e.2.toNat) 126 = [e.1, decimal e.2.toNat] := by
    unfold strSplit
    rw [List.splitOn_append_cons_self_of_not_mem htilde, List.splitOn_eq_singleton hdecimal]
    simp [decimal_ne_nil]
  unfold parseIntroductionTime
  rw [hsplit]
  dsimp only
  rw [if_neg hne, readUnsigned_decimal (UInt32.toNat_lt _)]
  simp

theorem foldlM_parseIntroductionTime {es : List (ByteString × UInt32)} (h : ∀ e ∈ es, Writable e)
    (uninit : UInt32) (read : IntroductionTimes) :
    (es.map fun e => e.1 ++ 126 :: decimal e.2.toNat).foldlM (fun ret entry =>
        parseIntroductionTime uninit entry >>= fun e => pure (ret.insert e.1 e.2)) read =
      .ok (insertAll (es.map fun e => ⟨stripColon e.1, e.2⟩) read) := by
  induction es generalizing read with
  | nil => rfl
  | cons e es ih =>
    rw [List.map_cons, List.foldlM_cons,
      parseIntroductionTime_entry (h e List.mem_cons_self)]
    exact ih (fun e he => h e (List.mem_cons_of_mem _ he)) _

def LBMLookup.readBack (lookup : LBMLookup) : IntroductionTimes :=
  insertAll (lookup.saved.map fun e => ⟨stripColon e.1, e.2⟩) ∅

theorem parse_createIntroductionTimesString (h : ∀ e ∈ lookup.saved, Writable e)
    (uninit : UInt32) :
    parseIntroductionTimesString uninit lookup.createIntroductionTimesString =
      .ok lookup.readBack := by
  have hlines : lookup.createIntroductionTimesString =
      (lookup.saved.map fun e => e.1 ++ 126 :: decimal e.2.toNat).flatMap (· ++ [59]) ++ [] := by
    rw [List.append_nil, List.flatMap_map]
    refine List.flatMap_congr fun e _ => ?_
    rw [List.append_assoc, List.cons_append]
  have hsep : ∀ l ∈ lookup.saved.map fun e => e.1 ++ 126 :: decimal e.2.toNat, 59 ∉ l := by
    intro l hl
    obtain ⟨e, he, rfl⟩ := List.mem_map.mp hl
    rw [List.mem_append, List.mem_cons, not_or, not_or]
    exact ⟨(h e he).2.1, by decide, notMem_decimal rfl _⟩
  unfold parseIntroductionTimesString
  rw [hlines, splitOn_lines hsep]
  have hlast : ∀ ls : List ByteString, (ls ++ ([] : ByteString).splitOn 59).dropLast = ls := by
    intro ls
    exact List.dropLast_concat
  rw [hlast]
  exact foldlM_parseIntroductionTime h uninit ∅

/-- The last value inserted counts; when values are inserted in their order it is the greatest. -/
theorem lookup_insertAll_of_sorted {l : List (Sigma fun _ : ByteString => UInt32)}
    (h : l.Pairwise fun e e' => e.2 ≤ e'.2) (m : IntroductionTimes) (n : ByteString) (t : UInt32) :
    (insertAll l m).lookup n = some t ↔
      (⟨n, t⟩ ∈ l ∧ ∀ t', ⟨n, t'⟩ ∈ l → t' ≤ t) ∨
        (m.lookup n = some t ∧ ∀ t', ⟨n, t'⟩ ∉ l) := by
  induction l generalizing m with
  | nil => simp [insertAll]
  | cons e l ih =>
    obtain ⟨n₀, t₀⟩ := e
    obtain ⟨hhead, htail⟩ := List.pairwise_cons.mp h
    have hcons : insertAll (⟨n₀, t₀⟩ :: l) m = insertAll l (m.insert n₀ t₀) := rfl
    rw [hcons, ih htail]
    by_cases hn : n = n₀
    · subst hn
      rw [Finmap.lookup_insert]
      constructor
      · intro hor
        cases hor with
        | inl hlater =>
          refine .inl ⟨List.mem_cons_of_mem _ hlater.1, fun t' ht' => ?_⟩
          cases ht' with
          | head => exact hhead _ hlater.1
          | tail _ ht' => exact hlater.2 t' ht'
        | inr hfirst =>
          obtain ⟨ht, hnone⟩ := hfirst
          have ht : t₀ = t := Option.some.inj ht
          subst ht
          refine .inl ⟨List.mem_cons_self, fun t' ht' => ?_⟩
          cases ht' with
          | head => exact le_refl _
          | tail _ ht' => exact absurd ht' (hnone t')
      · intro hor
        cases hor with
        | inr hold => exact absurd List.mem_cons_self (hold.2 t₀)
        | inl hmax =>
          obtain ⟨hmem, hmax⟩ := hmax
          by_cases hlater : ⟨n, t⟩ ∈ l
          · exact .inl ⟨hlater, fun t' ht' => hmax t' (List.mem_cons_of_mem _ ht')⟩
          · cases hmem with
            | tail _ hmem => exact absurd hmem hlater
            | head =>
              refine .inr ⟨rfl, fun t' ht' => hlater ?_⟩
              have heq : t' = t := le_antisymm (hmax t' (List.mem_cons_of_mem _ ht')) (hhead _ ht')
              exact heq ▸ ht'
    · rw [Finmap.lookup_insert_of_ne _ hn]
      have hmem : ∀ t', ⟨n, t'⟩ ∈ (⟨n₀, t₀⟩ :: l : List (Sigma fun _ : ByteString => UInt32)) ↔
          ⟨n, t'⟩ ∈ l := by
        intro t'
        rw [List.mem_cons]
        refine or_iff_right fun heq => hn ?_
        injection heq
      simp only [hmem]

theorem stripColon_eq_iff {m : ByteString} :
    stripColon m = n ↔ m = 58 :: n ∨ (m = n ∧ n.head? ≠ some 58) := by
  unfold stripColon
  split
  · rename_i name
    constructor
    · intro h
      exact .inl (h ▸ rfl)
    · intro h
      cases h with
      | inl h => exact (List.cons.inj h).2
      | inr h => exact absurd (h.1 ▸ rfl) h.2
  · rename_i hcolon
    constructor
    · intro h
      subst h
      refine .inr ⟨rfl, fun hhead => ?_⟩
      obtain ⟨l, rfl⟩ := List.head?_eq_some_iff.mp hhead
      exact hcolon l rfl
    · intro h
      cases h with
      | inl h => exact absurd h (hcolon n)
      | inr h => exact h.1

theorem mem_readBack {m : ByteString} :
    (⟨m, t⟩ : Sigma fun _ : ByteString => UInt32) ∈
        (lookup.saved.map fun e => (⟨stripColon e.1, e.2⟩ : Sigma fun _ : ByteString => UInt32)) ↔
      (58 :: m, t) ∈ lookup.saved ∨ ((m, t) ∈ lookup.saved ∧ m.head? ≠ some 58) := by
  rw [List.mem_map]
  constructor
  · intro ⟨e, he, heq⟩
    injection heq with hname htime
    have htime : e.2 = t := htime
    obtain ⟨n, t₀⟩ := e
    subst htime
    cases stripColon_eq_iff.mp hname with
    | inl h => exact .inl (h ▸ he)
    | inr h => exact .inr ⟨h.1 ▸ he, h.2⟩
  · intro h
    cases h with
    | inl h => exact ⟨_, h, rfl⟩
    | inr h =>
      refine ⟨_, h.1, ?_⟩
      rw [stripColon_eq_iff.mpr (.inr ⟨rfl, h.2⟩)]

/-- The time read for a name is the last of those written for it and for it with a colon. -/
theorem lookup_readBack (h : lookup.Ordered) (n : ByteString) (t : UInt32) :
    lookup.readBack.lookup n = some t ↔
      ((58 :: n, t) ∈ lookup.saved ∨ ((n, t) ∈ lookup.saved ∧ n.head? ≠ some 58)) ∧
        (∀ t', (58 :: n, t') ∈ lookup.saved → t' ≤ t) ∧
        ∀ t', (n, t') ∈ lookup.saved → n.head? ≠ some 58 → t' ≤ t := by
  have hsorted : (lookup.saved.map fun e => (⟨stripColon e.1, e.2⟩ :
      Sigma fun _ : ByteString => UInt32)).Pairwise fun e e' => e.2 ≤ e'.2 :=
    List.pairwise_map.mpr h.saved
  unfold LBMLookup.readBack
  rw [lookup_insertAll_of_sorted hsorted]
  simp only [mem_readBack, Finmap.lookup_empty, reduceCtorEq, false_and, or_false]
  refine and_congr_right fun _ => ⟨fun hall => ⟨fun t' ht' => hall t' (.inl ht'), ?_⟩, ?_⟩
  · exact fun t' ht' hhead => hall t' (.inr ⟨ht', hhead⟩)
  · intro hall t' ht'
    cases ht' with
    | inl ht' => exact hall.1 t' ht'
    | inr ht' => exact hall.2 t' ht'.1 ht'.2

theorem introductionTime_some (halways : d.run_at_every_load = false) (now time t : UInt32) :
    introductionTime now (some time) d = t ↔ (time ≤ now ∧ time = t) ∨ (now < time ∧ now = t) := by
  unfold introductionTime
  rw [halways]
  dsimp only
  by_cases h : time ≤ now
  · simp [h, not_lt.mpr h]
  · simp [h, not_le.mp h]

/-- What a reload makes of one saved time. -/
theorem introductionTime_readBack (h : lookup.Ordered)
    (hone : ∀ m t t', (m, t) ∈ lookup.saved → (m, t') ∈ lookup.saved → t' = t)
    (hmem : (n, t) ∈ lookup.saved) (halways : d.run_at_every_load = false) (now : UInt32) :
    introductionTime now (lookup.readBack.lookup n) d = t ↔ t ≤ now ∧
      if n.head? = some 58 then
        (∀ t', (58 :: n, t') ∈ lookup.saved → t' = t ∨ (now < t' ∧ t = now)) ∧
          ((∀ t', (58 :: n, t') ∉ lookup.saved) → t = now)
      else ∀ t', (58 :: n, t') ∈ lookup.saved → t' ≤ t ∨ t = now := by
  by_cases hcolon : n.head? = some 58
  · rw [if_pos hcolon]
    by_cases hwritten : ∃ t', (58 :: n, t') ∈ lookup.saved
    · obtain ⟨t₁, ht₁⟩ := hwritten
      have hread : lookup.readBack.lookup n = some t₁ := by
        refine (lookup_readBack h n t₁).mpr ⟨.inl ht₁, fun t' ht' => ?_, ?_⟩
        · exact (hone _ t₁ t' ht₁ ht').le
        · exact fun _ _ hne => absurd hcolon hne
      rw [hread, introductionTime_some halways]
      constructor
      · intro hor
        refine ⟨?_, fun t' ht' => ?_, fun hnone => absurd ht₁ (hnone t₁)⟩
        · cases hor with
          | inl hold => exact hold.2 ▸ hold.1
          | inr hnew => exact hnew.2.ge
        · rw [hone _ t₁ t' ht₁ ht']
          cases hor with
          | inl hold => exact .inl hold.2
          | inr hnew => exact .inr ⟨hnew.1, hnew.2.symm⟩
      · intro ⟨hnow, hall, _⟩
        cases hall t₁ ht₁ with
        | inl heq => exact .inl ⟨heq ▸ hnow, heq⟩
        | inr hlate => exact .inr ⟨hlate.1, hlate.2.symm⟩
    · have hnone : ∀ t', (58 :: n, t') ∉ lookup.saved := fun t' ht' => hwritten ⟨t', ht'⟩
      have hread : lookup.readBack.lookup n = none := by
        refine Option.eq_none_iff_forall_ne_some.mpr fun t' ht' => ?_
        cases ((lookup_readBack h n t').mp ht').1 with
        | inl hmem' => exact hnone t' hmem'
        | inr hmem' => exact hmem'.2 hcolon
      have htime : introductionTime now none d = now := by
        unfold introductionTime
        rw [halways]
        rfl
      rw [hread, htime]
      constructor
      · intro heq
        exact ⟨heq.ge, fun t' ht' => absurd ht' (hnone t'), fun _ => heq.symm⟩
      · intro ⟨_, _, heq⟩
        exact (heq hnone).symm
  · rw [if_neg hcolon]
    by_cases hlater : ∃ t', (58 :: n, t') ∈ lookup.saved ∧ t < t'
    · obtain ⟨t₁, ht₁, hlt⟩ := hlater
      have hread : lookup.readBack.lookup n = some t₁ := by
        refine (lookup_readBack h n t₁).mpr ⟨.inl ht₁, fun t' ht' => ?_, fun t' ht' _ => ?_⟩
        · exact (hone _ t₁ t' ht₁ ht').le
        · exact (hone _ t t' hmem ht').trans_lt hlt |>.le
      rw [hread, introductionTime_some halways]
      constructor
      · intro hor
        cases hor with
        | inl hold => exact absurd hold.2 hlt.ne'
        | inr hnew => exact ⟨hnew.2.ge, fun _ _ => .inr hnew.2.symm⟩
      · intro ⟨_, hall⟩
        cases hall t₁ ht₁ with
        | inl hle => exact absurd hlt (not_lt.mpr hle)
        | inr heq => exact .inr ⟨heq ▸ hlt, heq.symm⟩
    · have hle : ∀ t', (58 :: n, t') ∈ lookup.saved → t' ≤ t :=
        fun t' ht' => not_lt.mp fun hlt => hlater ⟨t', ht', hlt⟩
      have hread : lookup.readBack.lookup n = some t :=
        (lookup_readBack h n t).mpr ⟨.inr ⟨hmem, hcolon⟩, hle,
          fun t' ht' _ => (hone _ t t' hmem ht').le⟩
      rw [hread, introductionTime_some halways]
      constructor
      · intro hor
        refine ⟨?_, fun t' ht' => .inl (hle t' ht')⟩
        cases hor with
        | inl hold => exact hold.1
        | inr hnew => exact absurd hnew.2 hnew.1.ne
      · intro ⟨hnow, _⟩
        exact .inl ⟨hnow, rfl⟩

/-! ## The restart -/

theorem survives_iff_namesKept (hregs : registerLBMs regs = .ok defs) {order : LBMOrders}
    {uninit : UInt32} {times : ByteString}
    (hload : loadIntroductionTimes order uninit defs times now = .ok lookup)
    (order' : LBMOrders) (uninit' now' : UInt32) :
    ∃ lookup', loadIntroductionTimes order' uninit' defs lookup.createIntroductionTimesString now' =
        .ok lookup' ∧
      (lookup.Survives lookup' ↔ lookup.NamesKept now') := by
  have hdefs := registerLBMs_accepted hregs
  obtain ⟨read, hread⟩ : ∃ read, parseIntroductionTimesString uninit times = .ok read := by
    cases hread : parseIntroductionTimesString uninit times with
    | ok read => exact ⟨read, rfl⟩
    | error e =>
      unfold loadIntroductionTimes at hload
      rw [hread] at hload
      cases hload
  have hintro : ∀ t d, lookup.Introduced t d ↔ defs.lookup d.name = some d ∧
      t = introductionTime now (read.lookup d.name) d :=
    fun t d => introduced_load hdefs hread hload
  have hwritable : ∀ e ∈ lookup.saved, Writable e := by
    intro (n, t) he
    obtain ⟨d, hd, -, rfl⟩ := LBMLookup.mem_saved.mp he
    have hok := hdefs _ d ((hintro t d).mp hd).1
    exact writable_of_allowed hok.2.1 hok.2.2
  have hone : ∀ m t t', (m, t) ∈ lookup.saved → (m, t') ∈ lookup.saved → t' = t := by
    intro m t t' ht ht'
    obtain ⟨d, hd, -, rfl⟩ := LBMLookup.mem_saved.mp ht
    obtain ⟨d', hd', -, hname⟩ := LBMLookup.mem_saved.mp ht'
    obtain ⟨hfound, rfl⟩ := (hintro t d).mp hd
    obtain ⟨hfound', rfl⟩ := (hintro t' d').mp hd'
    rw [hname, hfound, Option.some.injEq] at hfound'
    rw [hfound']
  have hparse := parse_createIntroductionTimesString hwritable uninit'
  obtain ⟨lookup', hload'⟩ := loadIntroductionTimes_eq order' defs now' hparse
  refine ⟨lookup', hload', ?_⟩
  have hintro' : ∀ t d, lookup'.Introduced t d ↔ defs.lookup d.name = some d ∧
      t = introductionTime now' (lookup.readBack.lookup d.name) d :=
    fun t d => introduced_load hdefs hparse hload'
  have hordered := LBMLookup.Ordered.load hload
  constructor
  · intro hsurvives n t hmem
    obtain ⟨d, hd, halways, rfl⟩ := LBMLookup.mem_saved.mp hmem
    have hkept := ((hintro' t d).mp ((hsurvives d t halways).mpr hd)).2
    exact (introductionTime_readBack hordered hone hmem halways now').mp hkept.symm
  · intro hkept d t halways
    rw [hintro' t d, hintro t d]
    refine and_congr_right fun hd => ?_
    have hmem : (d.name, introductionTime now (read.lookup d.name) d) ∈ lookup.saved :=
      LBMLookup.mem_saved.mpr ⟨d, (hintro _ d).mpr ⟨hd, rfl⟩, halways, rfl⟩
    have heq := (introductionTime_readBack hordered hone hmem halways now').mpr (hkept _ _ hmem)
    rw [heq]

theorem survives_iff_namesKept_plain :
    ∃ defs lookup lookup', registerLBMs [{ name := bytes ":mod:grow" }] = .ok defs ∧
      loadIntroductionTimes ⟨.any _ _, .any _ _⟩ 0 defs [] 5 = .ok lookup ∧
      loadIntroductionTimes ⟨.any _ _, .any _ _⟩ 0 defs lookup.createIntroductionTimesString 9 =
        .ok lookup' ∧
      (lookup.Survives lookup' ↔ lookup.NamesKept 9) := by
  have hregs : registerLBMs [{ name := bytes ":mod:grow" }] =
      .ok ((∅ : LBMDefs).insert (bytes "mod:grow") { name := bytes "mod:grow" }) := rfl
  have hread : parseIntroductionTimesString 0 [] = .ok ∅ := rfl
  obtain ⟨lookup, hload⟩ := loadIntroductionTimes_eq ⟨.any _ _, .any _ _⟩
    ((∅ : LBMDefs).insert (bytes "mod:grow") { name := bytes "mod:grow" }) 5 hread
  obtain ⟨lookup', hload', hsurvives⟩ :=
    survives_iff_namesKept hregs hload ⟨.any _ _, .any _ _⟩ 0 9
  exact ⟨_, lookup, lookup', hregs, hload, hload', hsurvives⟩

/-- The second of two colons is registered and written, but not read back. -/
theorem not_survives :
    ¬∀ regs defs order uninit times now lookup order' uninit' now' lookup',
      registerLBMs regs = .ok defs →
      loadIntroductionTimes order uninit defs times now = .ok lookup → now ≤ now' →
      loadIntroductionTimes order' uninit' defs lookup.createIntroductionTimesString now' =
        .ok lookup' →
      lookup.Survives lookup' := by
  intro h
  have hregs : registerLBMs [{ name := bytes "::a" }] =
      .ok ((∅ : LBMDefs).insert (bytes ":a") { name := bytes ":a" }) := rfl
  have hload : loadIntroductionTimes ⟨.any _ _, .any _ _⟩ 0
      ((∅ : LBMDefs).insert (bytes ":a") { name := bytes ":a" }) [] 5 =
        .ok [(5, [{ name := bytes ":a" }])] := by
    have hread : parseIntroductionTimesString 0 [] = .ok ∅ := rfl
    have hnone : (HashOrder.any ByteString UInt32).entries ∅ = [] :=
      Multiset.coe_eq_zero _ |>.mp (HashOrder.entries_eq _ _)
    unfold loadIntroductionTimes
    rw [hread]
    dsimp only [bind, Except.bind]
    rw [hnone, List.foldl_nil, HashOrder.entries_singleton]
    rfl
  have hload' : loadIntroductionTimes ⟨.any _ _, .any _ _⟩ 0
      ((∅ : LBMDefs).insert (bytes ":a") { name := bytes ":a" })
      (LBMLookup.createIntroductionTimesString [(5, [{ name := bytes ":a" }])]) 9 =
        .ok [(9, [{ name := bytes ":a" }])] := by
    have hread : parseIntroductionTimesString 0
        (LBMLookup.createIntroductionTimesString [(5, [{ name := bytes ":a" }])]) =
          .ok ((∅ : IntroductionTimes).insert (bytes "a") 5) := rfl
    unfold loadIntroductionTimes
    rw [hread]
    dsimp only [bind, Except.bind]
    rw [HashOrder.entries_singleton, List.foldl_cons, List.foldl_nil]
    have hnot : introduceOld 9 ([], (∅ : LBMDefs).insert (bytes ":a") { name := bytes ":a" })
        ⟨bytes "a", 5⟩ = ([], (∅ : LBMDefs).insert (bytes ":a") { name := bytes ":a" }) := rfl
    rw [hnot, HashOrder.entries_singleton]
    rfl
  have hintro : LBMLookup.Introduced [(5, [{ name := bytes ":a" }])] 5 { name := bytes ":a" } :=
    ⟨_, List.mem_singleton_self _, List.mem_singleton_self _⟩
  obtain ⟨l, hl, -⟩ :=
    (h _ _ _ _ _ _ _ _ _ _ _ hregs hload (by decide) hload' _ _ rfl).mpr hintro
  cases hl with
  | tail _ hl => cases hl

end Freeminer.Server
