import Freeminer.Voxel.Light

/-! Unloading the blocks of a map (`fm_map.cpp`): node changes, the use of blocks, the passes of
`Map::timerUpdate` and `ServerMap::save`, step by step, each locked section in one step. Times are
rational numbers. -/

namespace Freeminer.Server

open Voxel (V3)

def MOD_STATE_CLEAN : ℕ := 0
def MOD_STATE_WRITE_AT_UNLOAD : ℕ := 2
def MOD_STATE_WRITE_NEEDED : ℕ := 4

def BLOCK_TIMESTAMP_UNDEFINED : UInt32 := 0xffffffff

/-- A block with its contents, what it says of being modified, and two counts that the program does
not keep: how many changes since it was loaded are not written, and how many of these it has
promised to write. -/
structure UnloadBlock (δ : Type*) where
  data : δ
  generated : Bool
  modified : ℕ := MOD_STATE_CLEAN
  timestamp : UInt32 := BLOCK_TIMESTAMP_UNDEFINED
  diskTimestamp : UInt32 := BLOCK_TIMESTAMP_UNDEFINED
  usageTimer : ℚ := 0
  usageTimerMultiplier : ℤ := 1
  uptimeTimerLast : ℚ := 0
  unsaved : ℕ := 0
  promised : ℕ := 0

/-- Which of the functions of a block writes a node. -/
inductive NodeWriter where
  | setNode
  | setNodeNoCheck
  deriving DecidableEq

structure UnloadSettings where
  saveChangedBlock : Bool := true
  mapSavingEnabled : Bool := true

namespace UnloadBlock

variable {δ : Type*}

/-- `raiseModified` -/
def raiseModified (cfg : UnloadSettings) (b : UnloadBlock δ) (mod : ℕ) (important : Bool) :
    UnloadBlock δ :=
  if mod > b.modified then
    let modified :=
      if cfg.saveChangedBlock ∨ important ∨ b.diskTimestamp ≠ BLOCK_TIMESTAMP_UNDEFINED then mod
      else b.modified
    { b with
      modified
      diskTimestamp :=
        if modified ≥ MOD_STATE_WRITE_AT_UNLOAD then b.timestamp else b.diskTimestamp }
  else b

/-- A node is written: `setNode` raises the state of important changes only. -/
def write (cfg : UnloadSettings) (b : UnloadBlock δ) (f : δ → δ) (via : NodeWriter)
    (important : Bool) : UnloadBlock δ :=
  let b := { b with data := f b.data, unsaved := b.unsaved + 1 }
  if via = .setNode ∧ important = false then b
  else b.raiseModified cfg MOD_STATE_WRITE_NEEDED important

def resetUsageTimer (b : UnloadBlock δ) : UnloadBlock δ :=
  { b with usageTimer := 0, usageTimerMultiplier := 1 }

/-- What `timerUpdate` does to a block that stays. -/
def tick (b : UnloadBlock δ) (uptime : ℚ) : UnloadBlock δ :=
  let last := if b.uptimeTimerLast = 0 then uptime - 1 / 10 else b.uptimeTimerLast
  { b with
    usageTimer := b.usageTimer + (uptime - last) * b.usageTimerMultiplier
    uptimeTimerLast := uptime }

/-- What `saveBlock` leaves of a block, when the save succeeds. -/
def saved (b : UnloadBlock δ) : UnloadBlock δ :=
  if b.generated then { b with modified := MOD_STATE_CLEAN, unsaved := 0, promised := 0 } else b

end UnloadBlock

/-- Where a pass of `timerUpdate` is: in its loop over the blocks, or erasing what it has chosen. -/
inductive TimerPass where
  | scan (uptime unloadTimeout : ℚ) (n calls size : ℕ) (chosen : List V3)
  | erase (chosen : List V3)

/-- Where a pass of `ServerMap::save` is in its loop. -/
structure SavePass where
  level : ℕ
  breakable : Bool
  n : ℕ := 0
  calls : ℕ := 0

/-- The map, with its blocks in the order of iteration; the passes that run; and which blocks were
erased. -/
structure UnloadState (δ : Type*) where
  block : V3 → Option (UnloadBlock δ) := fun _ => none
  order : List V3 := []
  db : V3 → Option δ
  blocksUpdateLast : ℕ := 0
  blocksSaveLast : ℕ := 0
  timer : Option TimerPass := none
  saver : Option SavePass := none
  erased : List (V3 × UnloadBlock δ) := []

namespace UnloadState

variable {δ : Type*} (cfg : UnloadSettings)

def chosen (s : UnloadState δ) : List V3 :=
  match s.timer with
  | none => []
  | some (.scan _ _ _ _ _ chosen) => chosen
  | some (.erase chosen) => chosen

/-- The loops hold the lock of `m_blocks`. -/
def locked (s : UnloadState δ) : Bool :=
  s.saver.isSome ||
    match s.timer with
    | some (.scan ..) => true
    | _ => false

def setBlock (s : UnloadState δ) (p : V3) (b : UnloadBlock δ) : UnloadState δ :=
  { s with block := Function.update s.block p (some b) }

/-- A node of a block changes. What is promised is a change of a generated block that is marked as
modified, and that no pass has chosen. -/
def change (s : UnloadState δ) (p : V3) (f : δ → δ) (via : NodeWriter) (important : Bool) :
    UnloadState δ :=
  match s.block p with
  | none => s
  | some b =>
    let b := b.write cfg f via important
    s.setBlock p
      (if b.generated = true ∧ b.modified ≠ MOD_STATE_CLEAN ∧ p ∉ s.chosen then
        { b with promised := b.promised + 1 }
      else b)

def use (s : UnloadState δ) (p : V3) : UnloadState δ :=
  match s.block p with
  | none => s
  | some b => s.setBlock p b.resetUsageTimer

def setGenerated (s : UnloadState δ) (p : V3) : UnloadState δ :=
  match s.block p with
  | none => s
  | some b => s.setBlock p { b with generated := true }

/-- A block that is not there is loaded, or made blank where the database has none. -/
def emerge (s : UnloadState δ) (p : V3) (blank : δ) (timestamp : UInt32) : UnloadState δ :=
  if s.locked = true ∨ (s.block p).isSome = true then s
  else
    let b : UnloadBlock δ :=
      match s.db p with
      | some data => { data, generated := true, timestamp, diskTimestamp := timestamp }
      | none => { data := blank, generated := false }
    { s.setBlock p b with order := s.order ++ [p] }

/-- A hash map may come to iterate in another order when it changes. -/
def rehash (s : UnloadState δ) (order : List V3) : UnloadState δ :=
  if s.locked = true ∨ ¬ order.Perm s.order then s else { s with order }

/-- `saveBlock`, which does not write a block that is not generated. -/
def saveBlock (s : UnloadState δ) (p : V3) (b : UnloadBlock δ) : UnloadState δ :=
  { s.setBlock p b.saved with
    db := if b.generated then Function.update s.db p (some b.data) else s.db }

/-! ## `Map::timerUpdate` -/

def beginTimer (s : UnloadState δ) (uptime unloadTimeout : ℚ) : UnloadState δ :=
  match s.timer with
  | some _ => s
  | none => { s with timer := some (.scan uptime unloadTimeout 0 0 s.order.length []) }

/-- One block in the loop: whether it is chosen, and whether the limits are looked at after it. -/
def timerBlock (s : UnloadState δ) (uptime unloadTimeout : ℚ) (p : V3) (b : UnloadBlock δ)
    (tryLock lodMesh : Bool) : UnloadState δ × Bool × Bool :=
  if b.generated = false ∧ lodMesh = false then (s, true, false)
  else if tryLock = false then (s, false, false)
  else if b.usageTimer > unloadTimeout then
    (if b.modified ≠ MOD_STATE_CLEAN then s.saveBlock p b else s, true, true)
  else (s.setBlock p (b.tick uptime), false, true)

/-- After a block the loop goes on, or stops on its limits and keeps its position. -/
def nextTimer (t : UnloadState δ) (uptime unloadTimeout : ℚ) (n calls size : ℕ)
    (chosen : List V3) (stops : Bool) : UnloadState δ :=
  if stops then { t with timer := some (.erase chosen), blocksUpdateLast := n + 1 }
  else
    { t with
      timer := some (.scan uptime unloadTimeout (n + 1) calls size chosen)
      blocksUpdateLast := 0 }

def visitTimer (s : UnloadState δ) (tryLock lodMesh timeOver : Bool) : UnloadState δ :=
  match s.timer with
  | some (.scan uptime unloadTimeout n calls size chosen) =>
    match s.order[n]? with
    | none =>
      { s with
        timer := some (.erase chosen)
        blocksUpdateLast := if calls = 0 then 0 else s.blocksUpdateLast }
    | some p =>
      if n < s.blocksUpdateLast then
        { s with timer := some (.scan uptime unloadTimeout (n + 1) calls size chosen) }
      else
        match s.block p with
        | none =>
          { s with
            timer := some (.scan uptime unloadTimeout (n + 1) (calls + 1) size chosen)
            blocksUpdateLast := 0 }
        | some b =>
          let x := s.timerBlock uptime unloadTimeout p b tryLock lodMesh
          let chosen := if x.2.1 then chosen ++ [p] else chosen
          x.1.nextTimer uptime unloadTimeout n (calls + 1) size chosen
            (x.2.2 = true ∧ calls + 1 > max 100 (size / 10) ∧ timeOver = true)
  | _ => s

/-- `eraseBlock` of the next chosen block, or the end of the pass. -/
def eraseBlock (s : UnloadState δ) : UnloadState δ :=
  match s.timer with
  | some (.erase []) => { s with timer := none }
  | some (.erase (p :: chosen)) =>
    if s.locked = true then s
    else
      { s with
        block := Function.update s.block p none
        order := s.order.filter (· ≠ p)
        timer := some (.erase chosen)
        erased := s.erased ++ ((s.block p).map fun b => (p, b)).toList }
  | _ => s

/-! ## `ServerMap::save` -/

def beginSave (s : UnloadState δ) (level : ℕ) (breakable : Bool) : UnloadState δ :=
  if cfg.mapSavingEnabled = false ∨ s.saver.isSome = true then s
  else
    { s with
      saver := some { level, breakable }
      blocksSaveLast := if breakable then s.blocksSaveLast else 0 }

def visitSave (s : UnloadState δ) (tryLock timeOver : Bool) : UnloadState δ :=
  match s.saver with
  | none => s
  | some pass =>
    match s.order[pass.n]? with
    | none =>
      { s with saver := none, blocksSaveLast := if pass.calls = 0 then 0 else s.blocksSaveLast }
    | some p =>
      if pass.n < s.blocksSaveLast then
        { s with saver := some { pass with n := pass.n + 1 } }
      else
        let next := some { pass with n := pass.n + 1, calls := pass.calls + 1 }
        match s.block p with
        | none => { s with saver := next, blocksSaveLast := 0 }
        | some b =>
          if b.modified ≥ pass.level ∧ pass.breakable = true ∧ tryLock = false then
            { s with saver := next, blocksSaveLast := 0 }
          else
            let t := if b.modified ≥ pass.level then s.saveBlock p b else s
            if pass.breakable = true ∧ timeOver = true then
              { t with saver := none, blocksSaveLast := pass.n + 1 }
            else { t with saver := next, blocksSaveLast := 0 }

end UnloadState

inductive UnloadOp (δ : Type*) where
  | change (p : V3) (f : δ → δ) (via : NodeWriter) (important : Bool)
  | use (p : V3)
  | setGenerated (p : V3)
  | emerge (p : V3) (blank : δ) (timestamp : UInt32)
  | rehash (order : List V3)
  | beginTimer (uptime unloadTimeout : ℚ)
  | visitTimer (tryLock lodMesh timeOver : Bool)
  | eraseBlock
  | beginSave (level : ℕ) (breakable : Bool)
  | visitSave (tryLock timeOver : Bool)

namespace UnloadState

variable {δ : Type*} (cfg : UnloadSettings)

def step (s : UnloadState δ) : UnloadOp δ → UnloadState δ
  | .change p f via important => s.change cfg p f via important
  | .use p => s.use p
  | .setGenerated p => s.setGenerated p
  | .emerge p blank timestamp => s.emerge p blank timestamp
  | .rehash order => s.rehash order
  | .beginTimer uptime unloadTimeout => s.beginTimer uptime unloadTimeout
  | .visitTimer tryLock lodMesh timeOver => s.visitTimer tryLock lodMesh timeOver
  | .eraseBlock => s.eraseBlock
  | .beginSave level breakable => s.beginSave cfg level breakable
  | .visitSave tryLock timeOver => s.visitSave tryLock timeOver

def run (db : V3 → Option δ) (ops : List (UnloadOp δ)) : UnloadState δ :=
  ops.foldl (step cfg) { db }

def NothingLost (s : UnloadState δ) : Prop := ∀ e ∈ s.erased, e.2.unsaved = 0

/-- Every change of an erased block that was promised to be written was written. -/
def PromisesKept (s : UnloadState δ) : Prop := ∀ e ∈ s.erased, e.2.promised = 0

end UnloadState

/-! What unloading keeps: over any interleaving the changes that were promised to be written are
written before their block is erased. A change of a block that is not generated is lost. -/

variable {δ : Type*} {cfg : UnloadSettings}

namespace UnloadBlock

variable {b : UnloadBlock δ}

theorem raiseModified_modified (cfg : UnloadSettings) (mod : ℕ) (important : Bool)
    (h : b.modified ≠ MOD_STATE_CLEAN) :
    (b.raiseModified cfg mod important).modified ≠ MOD_STATE_CLEAN := by
  unfold raiseModified
  split_ifs with hmod hmark
  · unfold MOD_STATE_CLEAN
    change mod ≠ 0
    omega
  · exact h
  · exact h

@[simp] theorem raiseModified_generated (cfg : UnloadSettings) (b : UnloadBlock δ) (mod : ℕ)
    (important : Bool) : (b.raiseModified cfg mod important).generated = b.generated := by
  unfold raiseModified
  split_ifs <;> rfl

@[simp] theorem raiseModified_promised (cfg : UnloadSettings) (b : UnloadBlock δ) (mod : ℕ)
    (important : Bool) : (b.raiseModified cfg mod important).promised = b.promised := by
  unfold raiseModified
  split_ifs <;> rfl

theorem write_modified (cfg : UnloadSettings) (f : δ → δ) (via : NodeWriter) (important : Bool)
    (h : b.modified ≠ MOD_STATE_CLEAN) :
    (b.write cfg f via important).modified ≠ MOD_STATE_CLEAN := by
  unfold write
  dsimp only
  split_ifs
  · exact h
  · exact raiseModified_modified cfg _ important h

@[simp] theorem write_generated (cfg : UnloadSettings) (b : UnloadBlock δ) (f : δ → δ)
    (via : NodeWriter) (important : Bool) :
    (b.write cfg f via important).generated = b.generated := by
  unfold write
  dsimp only
  split_ifs <;> simp

@[simp] theorem write_promised (cfg : UnloadSettings) (b : UnloadBlock δ) (f : δ → δ)
    (via : NodeWriter) (important : Bool) :
    (b.write cfg f via important).promised = b.promised := by
  unfold write
  dsimp only
  split_ifs <;> simp

end UnloadBlock

namespace UnloadState

variable {s : UnloadState δ} {p : V3} {b : UnloadBlock δ}

/-- A block keeps its promises as long as it is marked, and as long as no pass has chosen it. -/
def KeepsPromises (chosen : List V3) (p : V3) (b : UnloadBlock δ) : Prop :=
  b.promised ≠ 0 → b.generated = true ∧ b.modified ≠ MOD_STATE_CLEAN ∧ p ∉ chosen

structure Inv (s : UnloadState δ) : Prop where
  blocks : ∀ p b, s.block p = some b → KeepsPromises s.chosen p b
  kept : s.PromisesKept

theorem KeepsPromises.of_same {b' : UnloadBlock δ} {chosen : List V3}
    (h : KeepsPromises chosen p b) (hpromised : b'.promised = b.promised)
    (hgenerated : b.generated = true → b'.generated = true)
    (hmodified : b.modified ≠ MOD_STATE_CLEAN → b'.modified ≠ MOD_STATE_CLEAN) :
    KeepsPromises chosen p b' := by
  intro hne
  obtain ⟨hgen, hmod, hchosen⟩ := h (hpromised ▸ hne)
  exact ⟨hgenerated hgen, hmodified hmod, hchosen⟩

theorem KeepsPromises.saved {chosen : List V3} (h : KeepsPromises chosen p b) :
    b.saved.promised = 0 := by
  unfold UnloadBlock.saved
  split_ifs with hgen
  · rfl
  · by_contra hne
    exact hgen (h hne).1

theorem Inv.setBlock {b' : UnloadBlock δ} (h : s.Inv) (hb : KeepsPromises s.chosen p b') :
    (s.setBlock p b').Inv := by
  refine ⟨?_, h.kept⟩
  intro q c hc
  by_cases hq : q = p
  · subst hq
    have heq : b' = c := by simpa [UnloadState.setBlock] using hc
    exact heq ▸ hb
  · have hold : s.block q = some c := by simpa [UnloadState.setBlock, Function.update_of_ne hq] using hc
    exact h.blocks q c hold

/-- Only the blocks, what is chosen of them, and what was erased matter. -/
theorem Inv.of_same {t : UnloadState δ} (h : s.Inv) (hblock : t.block = s.block)
    (hchosen : ∀ q ∈ t.chosen, q ∈ s.chosen) (herased : t.erased = s.erased) : t.Inv := by
  refine ⟨?_, fun e he => h.kept e (herased ▸ he)⟩
  intro q c hc
  rw [hblock] at hc
  intro hne
  obtain ⟨hgen, hmod, hnot⟩ := h.blocks q c hc hne
  exact ⟨hgen, hmod, fun hq => hnot (hchosen q hq)⟩

theorem Inv.saveBlock (h : s.Inv) (hb : s.block p = some b) : (s.saveBlock p b).Inv := by
  have hset : (s.setBlock p b.saved).Inv := by
    apply h.setBlock
    intro hne
    exact absurd (h.blocks p b hb).saved hne
  exact hset.of_same rfl (fun _ hq => hq) rfl

/-- A block that owes nothing may be chosen. -/
theorem Inv.choose {t : UnloadState δ} (h : s.Inv) (hblock : t.block = s.block)
    (hchosen : ∀ q ∈ t.chosen, q ∈ s.chosen ∨ q = p) (herased : t.erased = s.erased)
    (hp : ∀ c, s.block p = some c → c.promised = 0) : t.Inv := by
  refine ⟨?_, fun e he => h.kept e (herased ▸ he)⟩
  intro q c hc
  rw [hblock] at hc
  intro hne
  obtain ⟨hgen, hmod, hnot⟩ := h.blocks q c hc hne
  refine ⟨hgen, hmod, fun hq => ?_⟩
  rcases hchosen q hq with hq | hq
  · exact hnot hq
  · subst hq
    exact hne (hp c hc)

/-! ## The steps -/

theorem Inv.change (h : s.Inv) (p : V3) (f : δ → δ) (via : NodeWriter) (important : Bool) :
    (s.change cfg p f via important).Inv := by
  unfold UnloadState.change
  cases hb : s.block p with
  | none => exact h
  | some b =>
    apply h.setBlock
    split_ifs with hpromise
    · exact fun _ => hpromise
    · exact (h.blocks p b hb).of_same (by simp) (by simp) (UnloadBlock.write_modified cfg f via important)

theorem Inv.emerge (h : s.Inv) (p : V3) (blank : δ) (timestamp : UInt32) :
    (s.emerge p blank timestamp).Inv := by
  unfold UnloadState.emerge
  split_ifs
  · exact h
  · have hset : ∀ b : UnloadBlock δ, b.promised = 0 → (s.setBlock p b).Inv :=
      fun b hb => h.setBlock fun hne => absurd hb hne
    cases s.db p with
    | none => exact (hset _ rfl).of_same rfl (fun _ hq => hq) rfl
    | some data => exact (hset _ rfl).of_same rfl (fun _ hq => hq) rfl

/-- One block in the loop of `timerUpdate`: what is chosen owes nothing. -/
theorem Inv.timerBlock (h : s.Inv) (hb : s.block p = some b) (uptime unloadTimeout : ℚ)
    (tryLock lodMesh : Bool) :
    let x := s.timerBlock uptime unloadTimeout p b tryLock lodMesh
    x.1.Inv ∧ x.1.chosen = s.chosen ∧ x.1.erased = s.erased ∧
      (x.2.1 = true → ∀ c, x.1.block p = some c → c.promised = 0) := by
  have hkeeps := h.blocks p b hb
  unfold UnloadState.timerBlock
  split_ifs with hblank hlock htimer hmodified
  · refine ⟨h, rfl, rfl, fun _ c hc => ?_⟩
    rw [hb] at hc
    by_contra hne
    rw [← Option.some.inj hc] at hne
    simp [(hkeeps hne).1] at hblank
  · exact ⟨h, rfl, rfl, by simp⟩
  · refine ⟨h.saveBlock hb, rfl, rfl, fun _ c hc => ?_⟩
    have heq : b.saved = c := by simpa [UnloadState.saveBlock, UnloadState.setBlock] using hc
    exact heq ▸ hkeeps.saved
  · refine ⟨h, rfl, rfl, fun _ c hc => ?_⟩
    rw [hb] at hc
    by_contra hne
    rw [← Option.some.inj hc] at hne
    exact hmodified (hkeeps hne).2.1
  · refine ⟨h.setBlock (hkeeps.of_same rfl (fun hgen => hgen) fun hmod => hmod), rfl, rfl, by simp⟩

theorem chosen_nextTimer (t : UnloadState δ) (uptime unloadTimeout : ℚ) (n calls size : ℕ)
    (chosen : List V3) (stops : Bool) :
    (t.nextTimer uptime unloadTimeout n calls size chosen stops).chosen = chosen := by
  unfold nextTimer
  split_ifs <;> rfl

@[simp] theorem block_nextTimer (t : UnloadState δ) (uptime unloadTimeout : ℚ) (n calls size : ℕ)
    (chosen : List V3) (stops : Bool) :
    (t.nextTimer uptime unloadTimeout n calls size chosen stops).block = t.block := by
  unfold nextTimer
  split_ifs <;> rfl

@[simp] theorem erased_nextTimer (t : UnloadState δ) (uptime unloadTimeout : ℚ) (n calls size : ℕ)
    (chosen : List V3) (stops : Bool) :
    (t.nextTimer uptime unloadTimeout n calls size chosen stops).erased = t.erased := by
  unfold nextTimer
  split_ifs <;> rfl

theorem Inv.visitTimer (h : s.Inv) (tryLock lodMesh timeOver : Bool) :
    (s.visitTimer tryLock lodMesh timeOver).Inv := by
  unfold UnloadState.visitTimer
  split
  · rename_i uptime unloadTimeout n calls size chosen hscan
    have hchosen : s.chosen = chosen := by simp [UnloadState.chosen, hscan]
    split
    · exact h.of_same rfl (fun q hq => hchosen ▸ hq) rfl
    · rename_i p hp
      split_ifs with hskip
      · exact h.of_same rfl (fun q hq => hchosen ▸ hq) rfl
      · cases hb : s.block p with
        | none => exact h.of_same rfl (fun q hq => hchosen ▸ hq) rfl
        | some b =>
          obtain ⟨hinv, hsame, herased, howes⟩ := h.timerBlock hb uptime unloadTimeout tryLock lodMesh
          rw [hchosen] at hsame
          dsimp only
          split_ifs with hchoose
          · refine hinv.choose (by simp) ?_ (by simp) (howes hchoose)
            intro q hq
            rw [chosen_nextTimer] at hq
            rw [hsame]
            simpa using hq
          · refine hinv.of_same (by simp) ?_ (by simp)
            intro q hq
            rw [chosen_nextTimer] at hq
            rwa [hsame]
  · exact h

/-- A block that is erased was chosen, so it owes nothing. -/
theorem Inv.eraseBlock (h : s.Inv) : s.eraseBlock.Inv := by
  unfold UnloadState.eraseBlock
  split
  · exact h.of_same rfl (by simp [UnloadState.chosen]) rfl
  · rename_i p chosen herase
    have hchosen : s.chosen = p :: chosen := by simp [UnloadState.chosen, herase]
    split_ifs
    · exact h
    · refine ⟨?_, ?_⟩
      · intro q c hc hne
        by_cases hq : q = p
        · subst hq
          simp at hc
        · have hold : s.block q = some c := by simpa [Function.update_of_ne hq] using hc
          obtain ⟨hgen, hmod, hnot⟩ := h.blocks q c hold hne
          exact ⟨hgen, hmod, fun hmem => hnot (hchosen ▸ List.mem_cons_of_mem p hmem)⟩
      · intro e he
        rcases List.mem_append.mp he with he | he
        · exact h.kept e he
        · cases hb : s.block p with
          | none => simp [hb] at he
          | some b =>
            have heq : e = (p, b) := by simpa [hb] using he
            rw [heq]
            by_contra hne
            exact (h.blocks p b hb hne).2.2 (hchosen ▸ List.mem_cons_self)
  · exact h

theorem Inv.visitSave (h : s.Inv) (tryLock timeOver : Bool) :
    (s.visitSave tryLock timeOver).Inv := by
  unfold UnloadState.visitSave
  cases s.saver with
  | none => exact h
  | some pass =>
    dsimp only
    split
    · exact h.of_same rfl (fun _ hq => hq) rfl
    · rename_i p hp
      by_cases hskip : pass.n < s.blocksSaveLast
      · rw [if_pos hskip]
        exact h.of_same rfl (fun _ hq => hq) rfl
      · rw [if_neg hskip]
        cases hb : s.block p with
        | none => exact h.of_same rfl (fun _ hq => hq) rfl
        | some b =>
          dsimp only
          by_cases hlevel : b.modified ≥ pass.level
          · simp only [hlevel, if_true]
            split_ifs
            · exact h.of_same rfl (fun _ hq => hq) rfl
            · exact (h.saveBlock hb).of_same rfl (fun _ hq => hq) rfl
            · exact (h.saveBlock hb).of_same rfl (fun _ hq => hq) rfl
          · simp only [hlevel, false_and, if_false]
            split_ifs
            · exact h.of_same rfl (fun _ hq => hq) rfl
            · exact h.of_same rfl (fun _ hq => hq) rfl

theorem Inv.use (h : s.Inv) (p : V3) : (s.use p).Inv := by
  unfold UnloadState.use
  cases hb : s.block p with
  | none => exact h
  | some b => exact h.setBlock ((h.blocks p b hb).of_same rfl (fun hgen => hgen) fun hmod => hmod)

theorem Inv.setGenerated (h : s.Inv) (p : V3) : (s.setGenerated p).Inv := by
  unfold UnloadState.setGenerated
  cases hb : s.block p with
  | none => exact h
  | some b => exact h.setBlock ((h.blocks p b hb).of_same rfl (fun _ => rfl) fun hmod => hmod)

theorem Inv.rehash (h : s.Inv) (order : List V3) : (s.rehash order).Inv := by
  unfold UnloadState.rehash
  split_ifs
  · exact h
  · exact h.of_same rfl (fun _ hq => hq) rfl

theorem Inv.beginTimer (h : s.Inv) (uptime unloadTimeout : ℚ) :
    (s.beginTimer uptime unloadTimeout).Inv := by
  unfold UnloadState.beginTimer
  cases s.timer with
  | some _ => exact h
  | none => exact h.of_same rfl (by simp [UnloadState.chosen]) rfl

theorem Inv.beginSave (h : s.Inv) (level : ℕ) (breakable : Bool) :
    (s.beginSave cfg level breakable).Inv := by
  unfold UnloadState.beginSave
  split_ifs
  · exact h
  · exact h.of_same rfl (fun _ hq => hq) rfl
  · exact h.of_same rfl (fun _ hq => hq) rfl

theorem Inv.step (h : s.Inv) (op : UnloadOp δ) : (s.step cfg op).Inv := by
  cases op with
  | change p f via important => exact h.change p f via important
  | use p => exact h.use p
  | setGenerated p => exact h.setGenerated p
  | emerge p blank timestamp => exact h.emerge p blank timestamp
  | rehash order => exact h.rehash order
  | beginTimer uptime unloadTimeout => exact h.beginTimer uptime unloadTimeout
  | visitTimer tryLock lodMesh timeOver => exact h.visitTimer tryLock lodMesh timeOver
  | eraseBlock => exact h.eraseBlock
  | beginSave level breakable => exact h.beginSave level breakable
  | visitSave tryLock timeOver => exact h.visitSave tryLock timeOver

theorem inv_run (cfg : UnloadSettings) (db : V3 → Option δ) (ops : List (UnloadOp δ)) :
    (run cfg db ops).Inv := by
  have hfold : ∀ s : UnloadState δ, s.Inv → (ops.foldl (step cfg) s).Inv := by
    induction ops with
    | nil => exact fun s h => h
    | cons op ops ih => exact fun s h => ih _ (h.step op)
  refine hfold _ ⟨?_, ?_⟩
  · intro p b hb
    cases hb
  · intro e he
    cases he

/-- Over any interleaving of changes, uses, loads and passes, no block is erased before the changes
that were promised to be written are. -/
theorem promisesKept_run (cfg : UnloadSettings) (db : V3 → Option δ) (ops : List (UnloadOp δ)) :
    (run cfg db ops).PromisesKept := (inv_run cfg db ops).kept

/-- A block that the database does not have is made, changed, and unloaded. -/
def blankChanged : List (UnloadOp ℕ) :=
  [.emerge ⟨0, 0, 0⟩ 0 7, .change ⟨0, 0, 0⟩ (· + 1) .setNodeNoCheck true, .beginTimer 1 600,
    .visitTimer true false false, .visitTimer true false false, .eraseBlock, .eraseBlock]

/-- The change of the block, which is not generated, is lost. -/
theorem not_nothingLost_run : ¬ ∀ (cfg : UnloadSettings) (db : V3 → Option ℕ)
    (ops : List (UnloadOp ℕ)), (run cfg db ops).NothingLost := by
  intro h
  have hlost : ((run {} (fun _ => none) blankChanged).erased.map fun e => e.2.unsaved) = [1] := by
    decide +kernel
  have hnone := h {} (fun _ => none) blankChanged
  obtain ⟨e, herased⟩ : ∃ e, (run {} (fun _ => none) blankChanged).erased = [e] ∧
      e.2.unsaved = 1 := by
    obtain ⟨e, he, hunsaved⟩ := List.map_eq_singleton_iff.mp hlost
    exact ⟨e, he, hunsaved⟩
  have hzero := hnone e (by simp [herased.1])
  omega

end UnloadState

end Freeminer.Server
