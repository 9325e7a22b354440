import Freeminer.Lib.Ledger
import Freeminer.Lib.Runs

/-! `EmergeManager` (`emerge.cpp`): the table of enqueued blocks, the queues of the emerge threads
and the counters of the peers. What holds `m_queue_mutex` is one step. -/

namespace Freeminer.Emerge

open Lib

/-- `v3bpos_t`, with coordinates of 32 bits (`USE_POS32`). -/
structure BlockPos where
  x : Int32
  y : Int32
  z : Int32
  deriving DecidableEq

def PEER_ID_INEXISTENT : UInt16 := 0

def BLOCK_EMERGE_ALLOW_GEN : UInt16 := 1
def BLOCK_EMERGE_FORCE_QUEUE : UInt16 := 2

/-- A callback of type `C` is the function and its parameter. -/
structure BlockEmergeData (C : Type) where
  peerRequested : UInt16
  flags : UInt16
  callbacks : List C

structure EmergeManager (C : Type) where
  blocksEnqueued : AList fun _ : BlockPos => BlockEmergeData C
  peerQueueCount : UInt16 → Option UInt32
  /-- `m_block_queue` of each thread. -/
  queues : List (List BlockPos)
  qlimitTotal : UInt32
  qlimitDiskonly : UInt32
  qlimitGenerate : UInt32

namespace EmergeManager

variable {C : Type} (m : EmergeManager C)

/-- `m_peer_queue_count[peer]`, which is zero where there was no entry. -/
def countPeer (peer : UInt16) : UInt32 := (m.peerQueueCount peer).getD 0

def setCount (peer : UInt16) (count : UInt32) : EmergeManager C :=
  { m with peerQueueCount := Function.update m.peerQueueCount peer (some count) }

def setBlock (pos : BlockPos) (bedata : BlockEmergeData C) : EmergeManager C :=
  { m with blocksEnqueued := m.blocksEnqueued.insert pos bedata }

def setQueue (thread : ℕ) (queue : List BlockPos) : EmergeManager C :=
  { m with queues := m.queues.set thread queue }

def queue (thread : ℕ) : List BlockPos := m.queues.getD thread []

/-- A request that the limits turn down; products are 32 bits wide. -/
def overLimit (peerRequested : UInt16) (flags : UInt16) : Bool :=
  if flags &&& BLOCK_EMERGE_FORCE_QUEUE = 0 then
    if m.qlimitTotal.toNat ≤ m.blocksEnqueued.entries.length then true
    else if peerRequested ≠ PEER_ID_INEXISTENT then
      (if flags &&& BLOCK_EMERGE_ALLOW_GEN ≠ 0 then m.qlimitGenerate else m.qlimitDiskonly) ≤
        m.countPeer peerRequested
    else m.qlimitTotal ≤ m.countPeer peerRequested * 2
  else false

/-- Whether the request is accepted, and then whether the entry was there already. -/
def pushBlockEmergeData (pos : BlockPos) (peerRequested : UInt16) (flags : UInt16)
    (callback : Option C) : EmergeManager C × Option Bool :=
  -- `operator[]` leaves an entry for the peer in any case
  let m := m.setCount peerRequested (m.countPeer peerRequested)
  if m.overLimit peerRequested flags then (m, none)
  else
    match m.blocksEnqueued.lookup pos with
    | some bedata =>
      (m.setBlock pos ⟨bedata.peerRequested, bedata.flags ||| flags,
        bedata.callbacks ++ callback.toList⟩, some true)
    | none =>
      ((m.setBlock pos ⟨peerRequested, flags, callback.toList⟩).setCount peerRequested
        (m.countPeer peerRequested + 1), some false)

/-- The loop of `getOptimalThread` from thread `i` on. -/
def optimalFrom : List (List BlockPos) → ℕ → ℕ → ℕ → ℕ
  | [], index, _, _ => index
  | q :: qs, index, nitemsLowest, i =>
    if q.length < nitemsLowest then optimalFrom qs i q.length (i + 1)
    else optimalFrom qs index nitemsLowest (i + 1)

/-- The first of the threads with the fewest items; there is a thread. -/
def getOptimalThread : ℕ :=
  match m.queues with
  | [] => 0
  | q :: qs => optimalFrom qs 0 q.length 1

def pushBlock (thread : ℕ) (pos : BlockPos) : EmergeManager C :=
  m.setQueue thread (m.queue thread ++ [pos])

def enqueueBlockEmergeEx (blockpos : BlockPos) (peerId : UInt16) (flags : UInt16)
    (callback : Option C) : EmergeManager C × Bool :=
  let r := m.pushBlockEmergeData blockpos peerId flags callback
  match r.2 with
  | none => (r.1, false)
  | some true => (r.1, true)
  | some false => (r.1.pushBlock r.1.getOptimalThread blockpos, true)

/-- `bedata` is what the caller has, which stays where there is no entry. The caller does not look
at what is returned. -/
def popBlockEmergeData (pos : BlockPos) (bedata : BlockEmergeData C) :
    EmergeManager C × BlockEmergeData C :=
  match m.blocksEnqueued.lookup pos with
  | none => (m, bedata)
  | some found =>
    match m.peerQueueCount found.peerRequested with
    | none => (m, found)
    | some countPeer =>
      ({ m.setCount found.peerRequested (countPeer - 1) with
        blocksEnqueued := m.blocksEnqueued.erase pos }, found)

/-- `assert(count_peer != 0)` -/
def CountAsserted (pos : BlockPos) : Prop :=
  ∀ found ∈ m.blocksEnqueued.lookup pos, ∀ countPeer ∈ m.peerQueueCount found.peerRequested,
    countPeer ≠ 0

/-- `popBlockEmerge`: the state, the position and the data, where the queue is not empty. -/
def popBlockEmerge (thread : ℕ) : Option (EmergeManager C × BlockPos × BlockEmergeData C) :=
  match m.queue thread with
  | [] => none
  | pos :: rest =>
    let r := (m.setQueue thread rest).popBlockEmergeData pos ⟨0, 0, []⟩
    some (r.1, pos, r.2)

/-- The loop of `cancelPendingItems`, which takes the items as `popBlockEmerge` does; the items
whose callbacks it runs. -/
def cancelItems (thread : ℕ) : ℕ → EmergeManager C →
    EmergeManager C × List (BlockPos × BlockEmergeData C)
  | 0, m => (m, [])
  | n + 1, m =>
    match m.popBlockEmerge thread with
    | none => (m, [])
    | some r => ((cancelItems thread n r.1).1, r.2 :: (cancelItems thread n r.1).2)

def cancelPendingItems (thread : ℕ) : EmergeManager C × List (BlockPos × BlockEmergeData C) :=
  cancelItems thread (m.queue thread).length m

end EmergeManager

/-- What the threads of the server do under the mutex. -/
inductive Action (C : Type) where
  | enqueue (blockpos : BlockPos) (peerId : UInt16) (flags : UInt16) (callback : Option C)
  | pop (thread : ℕ)
  | cancel (thread : ℕ)

namespace EmergeManager

variable {C : Type}

def step (m : EmergeManager C) : Action C → EmergeManager C
  | .enqueue blockpos peerId flags callback =>
    (m.enqueueBlockEmergeEx blockpos peerId flags callback).1
  | .pop thread => ((m.popBlockEmerge thread).map Prod.fst).getD m
  | .cancel thread => (m.cancelPendingItems thread).1

/-- Runs start with at least one thread and nothing enqueued, whatever the limits are. -/
def lts (C : Type) : Lts (EmergeManager C) (Action C) where
  init m := m.blocksEnqueued = ∅ ∧ (∀ peer, m.peerQueueCount peer = none) ∧ m.queues ≠ [] ∧
    ∀ q ∈ m.queues, q = []
  step m a m' := m.step a = m'

end EmergeManager

/-! The bookkeeping of the emerge queue: a position in the table is in one queue, once, and the
counter of a peer is the number of the entries charged to it, to 32 bits. -/

namespace EmergeManager

variable {C : Type} {m : EmergeManager C}

def charge (peer : UInt16) (e : Σ _ : BlockPos, BlockEmergeData C) : ℕ :=
  if e.2.peerRequested = peer then 1 else 0

def charged (m : EmergeManager C) (peer : UInt16) : ℕ :=
  weight (charge peer) m.blocksEnqueued.entries

structure Inv (m : EmergeManager C) : Prop where
  threads : m.queues ≠ []
  queued : ∀ pos, weight (List.count pos) m.queues = if pos ∈ m.blocksEnqueued then 1 else 0
  counted : ∀ peer, m.countPeer peer = UInt32.ofNat (m.charged peer)
  known : ∀ pos found, m.blocksEnqueued.lookup pos = some found →
    m.peerQueueCount found.peerRequested ≠ none

section Fields

variable (m : EmergeManager C) (peer : UInt16) (count : UInt32) (pos : BlockPos)
  (bedata : BlockEmergeData C) (thread : ℕ) (queue : List BlockPos)

@[simp] theorem setCount_blocksEnqueued :
    (m.setCount peer count).blocksEnqueued = m.blocksEnqueued := rfl

@[simp] theorem setCount_queues : (m.setCount peer count).queues = m.queues := rfl

@[simp] theorem setBlock_blocksEnqueued :
    (m.setBlock pos bedata).blocksEnqueued = m.blocksEnqueued.insert pos bedata := rfl

@[simp] theorem setBlock_queues : (m.setBlock pos bedata).queues = m.queues := rfl

@[simp] theorem setBlock_peerQueueCount :
    (m.setBlock pos bedata).peerQueueCount = m.peerQueueCount := rfl

@[simp] theorem setQueue_blocksEnqueued :
    (m.setQueue thread queue).blocksEnqueued = m.blocksEnqueued := rfl

@[simp] theorem setQueue_peerQueueCount :
    (m.setQueue thread queue).peerQueueCount = m.peerQueueCount := rfl

theorem countPeer_setCount (peer' : UInt16) :
    (m.setCount peer count).countPeer peer' = if peer' = peer then count else m.countPeer peer' := by
  unfold countPeer setCount
  by_cases h : peer' = peer
  · simp [h]
  · simp [h]

theorem peerQueueCount_setCount (peer' : UInt16) :
    (m.setCount peer count).peerQueueCount peer' =
      if peer' = peer then some count else m.peerQueueCount peer' := by
  unfold setCount
  by_cases h : peer' = peer
  · simp [h]
  · simp [h]

end Fields

section Enqueue

theorem optimalFrom_lt (qs : List (List BlockPos)) (index nitemsLowest i : ℕ) (h : index < i) :
    optimalFrom qs index nitemsLowest i < i + qs.length := by
  induction qs generalizing index nitemsLowest i with
  | nil => simpa [optimalFrom] using h
  | cons q qs ih =>
    unfold optimalFrom
    rw [List.length_cons]
    split_ifs
    · have := ih i q.length (i + 1) (by omega)
      omega
    · have := ih index nitemsLowest (i + 1) (by omega)
      omega

theorem getOptimalThread_lt (h : m.queues ≠ []) : m.getOptimalThread < m.queues.length := by
  unfold getOptimalThread
  cases hq : m.queues with
  | nil => exact absurd hq h
  | cons q qs =>
    have := optimalFrom_lt qs 0 q.length 1 (by omega)
    simp only [List.length_cons]
    omega

/-- What a request does to the table, and what it answers. -/
theorem pushBlockEmergeData_cases (m : EmergeManager C) (pos : BlockPos) (peer flags : UInt16)
    (callback : Option C) :
    m.pushBlockEmergeData pos peer flags callback = (m.setCount peer (m.countPeer peer), none) ∨
    (∃ bedata, m.blocksEnqueued.lookup pos = some bedata ∧
      m.pushBlockEmergeData pos peer flags callback =
        ((m.setCount peer (m.countPeer peer)).setBlock pos ⟨bedata.peerRequested,
          bedata.flags ||| flags, bedata.callbacks ++ callback.toList⟩, some true)) ∨
    (m.blocksEnqueued.lookup pos = none ∧
      m.pushBlockEmergeData pos peer flags callback =
        (((m.setCount peer (m.countPeer peer)).setBlock pos ⟨peer, flags, callback.toList⟩).setCount
          peer (m.countPeer peer + 1), some false)) := by
  unfold pushBlockEmergeData
  simp only
  split_ifs with hover
  · exact .inl rfl
  · cases h : m.blocksEnqueued.lookup pos with
    | some bedata => exact .inr (.inl ⟨bedata, rfl, by simp [h]⟩)
    | none => exact .inr (.inr ⟨rfl, by simp [h, countPeer_setCount]⟩)

theorem touch_inv (h : m.Inv) (peer : UInt16) : (m.setCount peer (m.countPeer peer)).Inv := by
  refine ⟨h.threads, h.queued, fun peer' => ?_, fun pos found hf => ?_⟩
  · rw [countPeer_setCount]
    change _ = UInt32.ofNat (m.charged peer')
    split_ifs with he
    · rw [he, h.counted]
    · exact h.counted peer'
  · rw [peerQueueCount_setCount]
    split_ifs
    · simp
    · exact h.known pos found hf

/-- Further callbacks and flags for an entry. -/
theorem setBlock_inv (h : m.Inv) {pos : BlockPos} {old new : BlockEmergeData C}
    (hold : m.blocksEnqueued.lookup pos = some old)
    (hpeer : new.peerRequested = old.peerRequested) : (m.setBlock pos new).Inv := by
  have hmem : pos ∈ m.blocksEnqueued := AList.lookup_isSome.mp (by simp [hold])
  refine ⟨h.threads, fun p => ?_, fun peer => ?_, fun p found hf => ?_⟩
  · rw [setBlock_queues, h.queued p]
    by_cases hp : p = pos
    · simp [hp, hmem]
    · simp [hp]
  · have hw := weight_insert_of_lookup (w := charge peer) hold new
    have hcharge : charge peer ⟨pos, new⟩ = charge peer ⟨pos, old⟩ := by simp [charge, hpeer]
    have : (m.setBlock pos new).charged peer = m.charged peer := by
      unfold charged
      rw [setBlock_blocksEnqueued]
      omega
    rw [this]
    exact h.counted peer
  · rw [setBlock_peerQueueCount]
    by_cases hp : p = pos
    · subst hp
      obtain rfl : new = found := by simpa [AList.lookup_insert] using hf
      rw [hpeer]
      exact h.known p old hold
    · rw [setBlock_blocksEnqueued, AList.lookup_insert_ne hp] at hf
      exact h.known p found hf

/-- A new entry, which is charged to its peer and put in a queue. -/
theorem newBlock_inv (h : m.Inv) {pos : BlockPos} (hnone : m.blocksEnqueued.lookup pos = none)
    (bedata : BlockEmergeData C) {thread : ℕ} (ht : thread < m.queues.length) :
    (((m.setBlock pos bedata).setCount bedata.peerRequested
      (m.countPeer bedata.peerRequested + 1)).pushBlock thread pos).Inv := by
  have hmem : pos ∉ m.blocksEnqueued := AList.lookup_eq_none.mp hnone
  refine ⟨?_, fun p => ?_, fun peer => ?_, fun p found hf => ?_⟩
  · simpa [pushBlock, setQueue] using h.threads
  · have hget : m.queues[thread]? = some (m.queue thread) := by
      simp [queue, ht]
    have hset := weight_set (w := List.count p) hget (m.queue thread ++ [pos])
    have hq := h.queued p
    rw [List.count_append, List.count_singleton] at hset
    change weight (List.count p) (m.queues.set thread (m.queue thread ++ [pos])) =
      if p ∈ m.blocksEnqueued.insert pos bedata then 1 else 0
    by_cases hp : p = pos
    · subst hp
      simp only [AList.mem_insert, true_or, if_true, hmem, if_false, beq_self_eq_true] at hq hset ⊢
      omega
    · have hp' : (pos == p) = false := by simpa using Ne.symm hp
      simp only [AList.mem_insert, hp, false_or, hp'] at hset ⊢
      rw [← hq]
      simpa using hset
  · have hw := weight_insert_of_notMem
      (w := charge peer) (b := bedata) hmem
    change ((m.setBlock pos bedata).setCount bedata.peerRequested _).countPeer peer =
      UInt32.ofNat (weight _ (m.blocksEnqueued.insert pos bedata).entries)
    rw [countPeer_setCount, hw, charge]
    by_cases hpeer : peer = bedata.peerRequested
    · subst hpeer
      simp only [if_true, UInt32.ofNat_add, h.counted]
      rfl
    · simp only [hpeer, Ne.symm hpeer, if_false, Nat.add_zero]
      exact h.counted peer
  · change (Function.update m.peerQueueCount _ _) found.peerRequested ≠ none
    change (m.blocksEnqueued.insert pos bedata).lookup p = some found at hf
    by_cases hpeer : found.peerRequested = bedata.peerRequested
    · simp [hpeer]
    · rw [Function.update_of_ne hpeer]
      by_cases hp : p = pos
      · subst hp
        obtain rfl : bedata = found := by simpa [AList.lookup_insert] using hf
        exact absurd rfl hpeer
      · rw [AList.lookup_insert_ne hp] at hf
        exact h.known p found hf

theorem enqueue_inv (h : m.Inv) (pos : BlockPos) (peer flags : UInt16) (callback : Option C) :
    (m.enqueueBlockEmergeEx pos peer flags callback).1.Inv := by
  have ht := touch_inv h peer
  unfold enqueueBlockEmergeEx
  rcases m.pushBlockEmergeData_cases pos peer flags callback with hr | ⟨old, hold, hr⟩ | ⟨hnone, hr⟩
  · rw [hr]
    exact ht
  · rw [hr]
    exact setBlock_inv ht hold rfl
  · rw [hr]
    have hc : (m.setCount peer (m.countPeer peer)).countPeer peer = m.countPeer peer := by
      simp [countPeer_setCount]
    have := newBlock_inv ht hnone ⟨peer, flags, callback.toList⟩ (getOptimalThread_lt h.threads)
    rw [hc] at this
    exact this

end Enqueue

section Pop

def taken (m : EmergeManager C) (thread : ℕ) (rest : List BlockPos) (pos : BlockPos)
    (peer : UInt16) (count : UInt32) : EmergeManager C :=
  { (m.setQueue thread rest).setCount peer (count - 1) with
    blocksEnqueued := m.blocksEnqueued.erase pos }

theorem queue_getElem? {thread : ℕ} (h : m.queue thread ≠ []) :
    m.queues[thread]? = some (m.queue thread) := by
  unfold queue at h ⊢
  rw [List.getD_eq_getElem?_getD] at h ⊢
  cases hq : m.queues[thread]? with
  | none => simp [hq] at h
  | some q => simp

theorem count_le_weight {thread : ℕ} (h : m.queue thread ≠ []) (pos : BlockPos) :
    (m.queue thread).count pos ≤ weight (List.count pos) m.queues := by
  have := weight_set (w := List.count pos) (queue_getElem? h) []
  simp only [List.count_nil] at this
  omega

theorem mem_of_queued (h : m.Inv) {thread : ℕ} {pos : BlockPos} (hp : pos ∈ m.queue thread) :
    pos ∈ m.blocksEnqueued := by
  have hle := count_le_weight (List.ne_nil_of_mem hp) pos
  have hpos := List.count_pos_iff.mpr hp
  have hq := h.queued pos
  split_ifs at hq with hm
  · exact hm
  · omega

theorem popBlockEmerge_nil {thread : ℕ} (h : m.queue thread = []) :
    m.popBlockEmerge thread = none := by
  simp [popBlockEmerge, h]

/-- Every item of a queue has its entry and the counter of its peer. -/
theorem popBlockEmerge_cons (h : m.Inv) {thread : ℕ} {pos : BlockPos} {rest : List BlockPos}
    (hq : m.queue thread = pos :: rest) :
    ∃ found count, m.blocksEnqueued.lookup pos = some found ∧
      m.peerQueueCount found.peerRequested = some count ∧
      m.popBlockEmerge thread =
        some (m.taken thread rest pos found.peerRequested count, pos, found) := by
  have hmem : pos ∈ m.blocksEnqueued := mem_of_queued h (by rw [hq]; exact List.mem_cons_self)
  obtain ⟨found, hfound⟩ := Option.isSome_iff_exists.mp (AList.lookup_isSome.mpr hmem)
  obtain ⟨count, hcount⟩ := Option.ne_none_iff_exists'.mp (h.known pos found hfound)
  exact ⟨found, count, hfound, hcount,
    by simp [popBlockEmerge, hq, popBlockEmergeData, hfound, hcount, taken]⟩

theorem taken_inv (h : m.Inv) {thread : ℕ} {pos : BlockPos} {rest : List BlockPos}
    (hq : m.queue thread = pos :: rest) {found : BlockEmergeData C}
    (hfound : m.blocksEnqueued.lookup pos = some found) {count : UInt32}
    (hcount : m.peerQueueCount found.peerRequested = some count) :
    (m.taken thread rest pos found.peerRequested count).Inv := by
  have hne : m.queue thread ≠ [] := by simp [hq]
  have hmem : pos ∈ m.blocksEnqueued := AList.lookup_isSome.mp (by simp [hfound])
  refine ⟨?_, fun p => ?_, fun peer => ?_, fun p data hf => ?_⟩
  · simpa [taken, setQueue] using h.threads
  · have hset := weight_set (w := List.count p) (queue_getElem? hne) rest
    have hp := h.queued p
    rw [hq, List.count_cons] at hset
    change weight (List.count p) (m.queues.set thread rest) =
      if p ∈ m.blocksEnqueued.erase pos then 1 else 0
    by_cases he : p = pos
    · subst he
      simp only [AList.mem_erase, ne_eq, not_true, false_and, if_false, hmem, if_true,
        beq_self_eq_true] at hp hset ⊢
      omega
    · have he' : (pos == p) = false := by simpa using Ne.symm he
      simp only [AList.mem_erase, ne_eq, he, not_false_eq_true, true_and, he'] at hset ⊢
      rw [← hp]
      simpa using hset
  · have hw := weight_erase (w := charge peer) hfound
    have hct : m.countPeer found.peerRequested = count := by simp [countPeer, hcount]
    change ((m.setQueue thread rest).setCount found.peerRequested (count - 1)).countPeer peer =
      UInt32.ofNat (weight (charge peer) (m.blocksEnqueued.erase pos).entries)
    rw [countPeer_setCount]
    by_cases hpeer : peer = found.peerRequested
    · subst hpeer
      have hc := h.counted found.peerRequested
      have hone : charge found.peerRequested ⟨pos, found⟩ = 1 := by simp [charge]
      rw [hct, charged, ← hw, hone, UInt32.ofNat_add] at hc
      rw [if_pos rfl, hc]
      exact UInt32.add_sub_cancel _ 1
    · have hzero : charge peer ⟨pos, found⟩ = 0 := by simp [charge, Ne.symm hpeer]
      rw [if_neg hpeer, show weight (charge peer) (m.blocksEnqueued.erase pos).entries =
        m.charged peer by unfold charged; omega]
      exact h.counted peer
  · change (m.blocksEnqueued.erase pos).lookup p = some data at hf
    change (Function.update m.peerQueueCount _ _) data.peerRequested ≠ none
    by_cases hpeer : data.peerRequested = found.peerRequested
    · simp [hpeer]
    · rw [Function.update_of_ne hpeer]
      have hp : p ≠ pos := by
        rintro rfl
        simp at hf
      rw [AList.lookup_erase_ne hp] at hf
      exact h.known p data hf

theorem popBlockEmerge_inv (h : m.Inv) {thread : ℕ}
    {r : EmergeManager C × BlockPos × BlockEmergeData C} (hr : m.popBlockEmerge thread = some r) :
    r.1.Inv := by
  cases hq : m.queue thread with
  | nil => simp [popBlockEmerge_nil hq] at hr
  | cons pos rest =>
    obtain ⟨found, count, hfound, hcount, heq⟩ := popBlockEmerge_cons h hq
    obtain rfl := Option.some.inj (heq.symm.trans hr)
    exact taken_inv h hq hfound hcount

theorem cancelItems_inv (h : m.Inv) (thread n : ℕ) : (cancelItems thread n m).1.Inv := by
  induction n generalizing m with
  | zero => exact h
  | succ n ih =>
    unfold cancelItems
    cases hr : m.popBlockEmerge thread with
    | none => exact h
    | some r => exact ih (popBlockEmerge_inv h hr)

theorem step_inv (h : m.Inv) (a : Action C) : (m.step a).Inv := by
  cases a with
  | enqueue pos peer flags callback => exact enqueue_inv h pos peer flags callback
  | pop thread =>
    change (((m.popBlockEmerge thread).map Prod.fst).getD m).Inv
    cases hr : m.popBlockEmerge thread with
    | none => exact h
    | some r => exact popBlockEmerge_inv h hr
  | cancel thread => exact cancelItems_inv h thread _

theorem init_inv (h : (lts C).init m) : m.Inv := by
  obtain ⟨hb, hc, hne, hq⟩ := h
  refine ⟨hne, fun pos => ?_, fun peer => ?_, fun pos found hf => ?_⟩
  · rw [hb]
    simp only [AList.notMem_empty, if_false]
    exact weight_eq_zero_iff.mpr fun q hqm => by simp [hq q hqm]
  · simp [countPeer, hc, charged, hb, weight]
  · simp [hb] at hf

theorem reach_inv (h : (lts C).Reach m) : m.Inv :=
  h.invariant (fun _ => init_inv) fun _ a _ hi _ hs => hs ▸ step_inv hi a

end Pop

section Claims

theorem queue_eq_of_getElem? {thread : ℕ} {q : List BlockPos} (h : m.queues[thread]? = some q) :
    m.queue thread = q := by
  simp [queue, h]

/-- A position is in the table if and only if it is in one queue. -/
theorem mem_iff_existsUnique (h : m.Inv) (pos : BlockPos) :
    pos ∈ m.blocksEnqueued ↔ ∃! thread, pos ∈ m.queue thread := by
  refine ⟨fun hm => ?_, fun ⟨thread, ht, _⟩ => mem_of_queued h ht⟩
  have hq := h.queued pos
  rw [if_pos hm] at hq
  obtain ⟨i, q, hi, hone, hrest⟩ := exists_of_weight_eq_one hq
  refine ⟨i, ?_, fun j hj => ?_⟩
  · change pos ∈ m.queue i
    rw [queue_eq_of_getElem? hi]
    exact List.count_pos_iff.mp (by omega)
  · by_contra hne
    have hzero := hrest j _ (queue_getElem? (List.ne_nil_of_mem hj)) hne
    exact absurd hj (List.count_eq_zero.mp hzero)

theorem queue_nodup (h : m.Inv) (thread : ℕ) : (m.queue thread).Nodup := by
  rw [List.nodup_iff_count_le_one]
  intro pos
  by_cases hne : m.queue thread = []
  · simp [hne]
  · have hle := count_le_weight hne pos
    have hq := h.queued pos
    split_ifs at hq <;> omega

theorem charged_pos {pos : BlockPos} {found : BlockEmergeData C}
    (h : m.blocksEnqueued.lookup pos = some found) : 0 < m.charged found.peerRequested := by
  have hw := weight_erase (w := charge found.peerRequested) h
  have hone : charge found.peerRequested ⟨pos, found⟩ = 1 := by simp [charge]
  unfold charged
  omega

theorem countAsserted (h : m.Inv) (hlt : ∀ peer, m.charged peer < 2 ^ 32) (pos : BlockPos) :
    m.CountAsserted pos := by
  intro found hfound count hcount h0
  have hc := h.counted found.peerRequested
  have hpos := charged_pos hfound
  rw [countPeer, hcount, Option.getD_some, h0] at hc
  have := congrArg UInt32.toNat hc
  rw [UInt32.toNat_ofNat_of_lt' (hlt _)] at this
  simp at this
  omega

/-- The assertion holds in each of the next items that a thread takes. -/
def PopsAsserted (thread : ℕ) : ℕ → EmergeManager C → Prop
  | 0, _ => True
  | n + 1, m => ∀ r, m.popBlockEmerge thread = some r →
      m.CountAsserted r.2.1 ∧ PopsAsserted thread n r.1

theorem charged_pop_le (h : m.Inv) {thread : ℕ}
    {r : EmergeManager C × BlockPos × BlockEmergeData C} (hr : m.popBlockEmerge thread = some r)
    (peer : UInt16) : r.1.charged peer ≤ m.charged peer := by
  cases hq : m.queue thread with
  | nil => simp [popBlockEmerge_nil hq] at hr
  | cons pos rest =>
    obtain ⟨found, count, hfound, -, heq⟩ := popBlockEmerge_cons h hq
    obtain rfl := Option.some.inj (heq.symm.trans hr)
    have := weight_erase (w := charge peer) hfound
    change weight (charge peer) (m.blocksEnqueued.erase pos).entries ≤ m.charged peer
    unfold charged
    omega

theorem popsAsserted (h : m.Inv) (hlt : ∀ peer, m.charged peer < 2 ^ 32) (thread n : ℕ) :
    PopsAsserted thread n m := by
  induction n generalizing m with
  | zero => trivial
  | succ n ih =>
    intro r hr
    exact ⟨countAsserted h hlt _, ih (popBlockEmerge_inv h hr)
      fun peer => lt_of_le_of_lt (charged_pop_le h hr peer) (hlt peer)⟩

/-- The bookkeeping in every state of every run. The counters are right as numbers, and the
assertion on them holds for every item that is popped or cancelled, while they have room. -/
theorem bookkeeping (h : (lts C).Reach m) :
    (∀ pos, pos ∈ m.blocksEnqueued ↔ ∃! thread, pos ∈ m.queue thread) ∧
      (∀ thread, (m.queue thread).Nodup) ∧
      (∀ peer, m.countPeer peer = UInt32.ofNat (m.charged peer)) ∧
      ((∀ peer, m.charged peer < 2 ^ 32) →
        (∀ peer, (m.countPeer peer).toNat = m.charged peer) ∧
          ∀ thread n, PopsAsserted thread n m) := by
  have hinv := reach_inv h
  refine ⟨mem_iff_existsUnique hinv, queue_nodup hinv, hinv.counted, fun hlt => ⟨fun peer => ?_,
    popsAsserted hinv hlt⟩⟩
  rw [hinv.counted peer, UInt32.toNat_ofNat_of_lt' (hlt peer)]

def fresh (limit : UInt32) : EmergeManager ℕ := ⟨∅, fun _ => none, [[]], limit, limit, limit⟩

theorem fresh_reach (limit : UInt32) : (lts ℕ).Reach (fresh limit) :=
  .init ⟨rfl, fun _ => rfl, by simp [fresh], by simp [fresh]⟩

theorem foldl_reach (h : (lts C).Reach m) (as : List (Action C)) :
    (lts C).Reach (as.foldl step m) := by
  induction as generalizing m with
  | nil => exact h
  | cons a as ih => exact ih (h.step trivial rfl)

/-- Two peers ask for three positions, one of them twice, and one item is taken. -/
def busy : EmergeManager ℕ :=
  [.enqueue ⟨0, 0, 0⟩ 1 BLOCK_EMERGE_ALLOW_GEN (some 7), .enqueue ⟨1, 0, 0⟩ 2 0 none,
    .enqueue ⟨0, 0, 0⟩ 2 BLOCK_EMERGE_FORCE_QUEUE (some 8), .enqueue ⟨2, 0, 0⟩ 1 0 none,
    .pop 0].foldl step (fresh 4)

theorem busy_reach : (lts ℕ).Reach busy :=
  foldl_reach (fresh_reach 4) _

theorem bookkeeping_busy :
    (∀ pos, pos ∈ busy.blocksEnqueued ↔ ∃! thread, pos ∈ busy.queue thread) ∧
      (∀ thread, (busy.queue thread).Nodup) ∧
      (∀ peer, busy.countPeer peer = UInt32.ofNat (busy.charged peer)) ∧
      ((∀ peer, busy.charged peer < 2 ^ 32) →
        (∀ peer, (busy.countPeer peer).toNat = busy.charged peer) ∧
          ∀ thread n, PopsAsserted thread n busy) :=
  bookkeeping busy_reach

def column (n : ℕ) : BlockPos := ⟨Int32.ofNat n, 0, 0⟩

/-- One peer enqueues a row of positions without regard for the limits. -/
def crowd : ℕ → EmergeManager ℕ
  | 0 => fresh 1
  | n + 1 => (crowd n).step (.enqueue (column n) 1 BLOCK_EMERGE_FORCE_QUEUE none)

theorem crowd_reach (n : ℕ) : (lts ℕ).Reach (crowd n) := by
  induction n with
  | zero => exact fresh_reach 1
  | succ n ih => exact ih.step trivial rfl

theorem column_inj {i j : ℕ} (hi : i < 2 ^ 32) (hj : j < 2 ^ 32) (h : column i = column j) :
    i = j := by
  have hx := congrArg (fun p : BlockPos => p.x.toUInt32.toNat) h
  have hmod : i % 2 ^ 32 = j % 2 ^ 32 := by simpa [column] using hx
  rwa [Nat.mod_eq_of_lt hi, Nat.mod_eq_of_lt hj] at hmod

theorem enqueue_forced {pos : BlockPos} (peer : UInt16) (callback : Option C)
    (hnone : m.blocksEnqueued.lookup pos = none) :
    (m.step (.enqueue pos peer BLOCK_EMERGE_FORCE_QUEUE callback)).blocksEnqueued =
      m.blocksEnqueued.insert pos ⟨peer, BLOCK_EMERGE_FORCE_QUEUE, callback.toList⟩ := by
  have hforce : ¬ BLOCK_EMERGE_FORCE_QUEUE &&& BLOCK_EMERGE_FORCE_QUEUE = 0 := by decide
  simp only [step, enqueueBlockEmergeEx, pushBlockEmergeData, overLimit, hforce, if_false,
    Bool.false_eq_true, setCount_blocksEnqueued, hnone]
  rfl

theorem crowd_spec {n : ℕ} (hn : n ≤ 2 ^ 32) : (crowd n).charged 1 = n ∧
    ∀ pos ∈ (crowd n).blocksEnqueued, ∃ i < n, pos = column i := by
  induction n with
  | zero => exact ⟨rfl, fun pos hpos => absurd hpos (AList.notMem_empty pos)⟩
  | succ n ih =>
    obtain ⟨hcharged, hrow⟩ := ih (by omega)
    have hnew : column n ∉ (crowd n).blocksEnqueued := by
      intro hmem
      obtain ⟨i, hi, he⟩ := hrow _ hmem
      have := column_inj (by omega) (by omega) he
      omega
    have htable : (crowd (n + 1)).blocksEnqueued = _ :=
      enqueue_forced 1 none (AList.lookup_eq_none.mpr hnew)
    refine ⟨?_, fun pos hpos => ?_⟩
    · rw [charged, htable, weight_insert_of_notMem hnew]
      exact congrArg (· + 1) hcharged
    · rw [htable, AList.mem_insert] at hpos
      rcases hpos with rfl | hpos
      · exact ⟨n, by omega, rfl⟩
      · obtain ⟨i, hi, he⟩ := hrow pos hpos
        exact ⟨i, by omega, he⟩

/-- With `2 ^ 32` entries the counter of the peer is back at zero. -/
theorem not_countPeer_eq : ¬ ∀ m : EmergeManager ℕ, (lts ℕ).Reach m →
    ∀ peer, (m.countPeer peer).toNat = m.charged peer := by
  intro h
  have heq := h _ (crowd_reach (2 ^ 32)) 1
  rw [(reach_inv (crowd_reach (2 ^ 32))).counted 1, (crowd_spec le_rfl).1] at heq
  simp at heq

end Claims

end EmergeManager

end Freeminer.Emerge
