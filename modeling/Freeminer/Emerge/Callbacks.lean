import Freeminer.Emerge.EmergeThread

/-! Whether the callbacks of accepted requests are called, once, with the action of their emerge. A
callback waits in the table or with a thread until its item is done; the item then leads to the
calls it should lead to unless the loop passes them by. -/

set_option linter.unusedSectionVars false

namespace Freeminer.Emerge

open Lib

variable {C : Type} [DecidableEq C]

/-- How often a callback for a position is in a piece of the system. -/
def entryCount (pos : BlockPos) (c : C) (e : Σ _ : BlockPos, BlockEmergeData C) : ℕ :=
  if e.1 = pos then e.2.callbacks.count c else 0

def threadCount (pos : BlockPos) (c : C) : ThreadState C → ℕ
  | .working p bedata => entryCount pos c ⟨p, bedata⟩
  | _ => 0

def callCount (pos : BlockPos) (c : C) (calls : List (Call C)) : ℕ :=
  calls.countP fun x => x.pos = pos ∧ x.callback = c

namespace System

/-- How many times a callback waits: in the table, or in the hands of threads. -/
def waiting (s : System C) (pos : BlockPos) (c : C) : ℕ :=
  weight (entryCount pos c) s.manager.blocksEnqueued.entries + weight (threadCount pos c) s.threads

def due (s : System C) : List (Call C) := s.done.flatMap Done.due

end System

theorem callCount_append (pos : BlockPos) (c : C) (l₁ l₂ : List (Call C)) :
    callCount pos c (l₁ ++ l₂) = callCount pos c l₁ + callCount pos c l₂ := by
  unfold callCount
  exact List.countP_append

theorem callCount_run (pos p : BlockPos) (c : C) (action : EmergeAction) (callbacks : List C) :
    callCount pos c (runCompletionCallbacks p action callbacks) =
      if p = pos then callbacks.count c else 0 := by
  induction callbacks with
  | nil => simp [callCount, runCompletionCallbacks]
  | cons d l ih =>
    unfold callCount runCompletionCallbacks at ih ⊢
    rw [List.map_cons, List.countP_cons, ih, List.count_cons]
    by_cases hp : p = pos
    · by_cases hd : d = c <;> simp [hp, hd]
    · simp [hp]

theorem callCount_due (pos : BlockPos) (c : C) (d : Done C) :
    callCount pos c d.due = entryCount pos c ⟨d.pos, d.bedata⟩ :=
  callCount_run pos d.pos c _ _

section Enqueue

/-- A request that is not accepted leaves the table as it was. -/
theorem enqueue_rejected {m : EmergeManager C} {pos : BlockPos} {peer flags : UInt16}
    {callback : Option C} (h : (m.enqueueBlockEmergeEx pos peer flags callback).2 = false) :
    (m.enqueueBlockEmergeEx pos peer flags callback).1.blocksEnqueued = m.blocksEnqueued := by
  unfold EmergeManager.enqueueBlockEmergeEx at h ⊢
  rcases m.pushBlockEmergeData_cases pos peer flags callback with hr | ⟨old, -, hr⟩ | ⟨-, hr⟩
  · rw [hr]
    rfl
  · simp [hr] at h
  · simp [hr] at h

/-- A request that is accepted adds its callback to the entry of its position. -/
theorem enqueue_accepted {m : EmergeManager C} {pos : BlockPos} {peer flags : UInt16}
    {callback : Option C} (h : (m.enqueueBlockEmergeEx pos peer flags callback).2 = true)
    (p : BlockPos) (c : C) :
    weight (entryCount p c)
        (m.enqueueBlockEmergeEx pos peer flags callback).1.blocksEnqueued.entries =
      weight (entryCount p c) m.blocksEnqueued.entries +
        (if pos = p then callback.toList.count c else 0) := by
  unfold EmergeManager.enqueueBlockEmergeEx at h ⊢
  rcases m.pushBlockEmergeData_cases pos peer flags callback with hr | ⟨old, hold, hr⟩ | ⟨hnone, hr⟩
  · simp [hr] at h
  · rw [hr]
    have hw := weight_insert_of_lookup (w := entryCount p c) hold
      ⟨old.peerRequested, old.flags ||| flags, old.callbacks ++ callback.toList⟩
    change weight _ (m.blocksEnqueued.insert pos _).entries = _
    simp only [entryCount, List.count_append] at hw ⊢
    split_ifs at hw ⊢ <;> omega
  · rw [hr]
    have hw := weight_insert_of_notMem (w := entryCount p c)
      (b := ⟨peer, flags, callback.toList⟩) (AList.lookup_eq_none.mp hnone)
    exact hw

end Enqueue

section Pop

variable {m : EmergeManager C} {thread : ℕ}

theorem pop_count (h : m.Inv) {r : EmergeManager C × BlockPos × BlockEmergeData C}
    (hr : m.popBlockEmerge thread = some r) (p : BlockPos) (c : C) :
    weight (entryCount p c) r.1.blocksEnqueued.entries + entryCount p c ⟨r.2.1, r.2.2⟩ =
      weight (entryCount p c) m.blocksEnqueued.entries := by
  cases hq : m.queue thread with
  | nil => simp [EmergeManager.popBlockEmerge_nil hq] at hr
  | cons pos rest =>
    obtain ⟨found, count, hfound, -, heq⟩ := EmergeManager.popBlockEmerge_cons h hq
    obtain rfl := Option.some.inj (heq.symm.trans hr)
    exact weight_erase (w := entryCount p c) hfound

theorem queue_setQueue {q : List BlockPos} (ht : thread < m.queues.length) (t : ℕ) :
    (m.setQueue thread q).queue t = if t = thread then q else m.queue t := by
  unfold EmergeManager.queue EmergeManager.setQueue
  rw [List.getD_eq_getElem?_getD, List.getD_eq_getElem?_getD, List.getElem?_set]
  by_cases he : t = thread
  · subst he
    simp [ht]
  · simp [he, Ne.symm he]

theorem lt_length_of_queue_ne (h : m.queue thread ≠ []) : thread < m.queues.length :=
  (List.getElem?_eq_some_iff.mp (EmergeManager.queue_getElem? h)).1

/-- A thread takes from its own queue only. -/
theorem pop_queue (h : m.Inv) {r : EmergeManager C × BlockPos × BlockEmergeData C}
    (hr : m.popBlockEmerge thread = some r) :
    m.queue thread = r.2.1 :: r.1.queue thread ∧ r.1.queues.length = m.queues.length ∧
      ∀ t, t ≠ thread → r.1.queue t = m.queue t := by
  cases hq : m.queue thread with
  | nil => simp [EmergeManager.popBlockEmerge_nil hq] at hr
  | cons pos rest =>
    have hlt : thread < m.queues.length := lt_length_of_queue_ne (by simp [hq])
    obtain ⟨found, count, -, -, heq⟩ := EmergeManager.popBlockEmerge_cons h hq
    obtain rfl := Option.some.inj (heq.symm.trans hr)
    have hqueue : ∀ t, (m.taken thread rest pos found.peerRequested count).queue t =
        if t = thread then rest else m.queue t := queue_setQueue hlt
    refine ⟨by rw [hqueue, if_pos rfl], by simp [EmergeManager.taken, EmergeManager.setQueue],
      fun t ht => ?_⟩
    rw [hqueue, if_neg ht]

/-- The callbacks of the items that are cancelled are those that leave the table. -/
theorem cancelItems_count (h : m.Inv) (thread n : ℕ) (p : BlockPos) (c : C) :
    weight (entryCount p c) (EmergeManager.cancelItems thread n m).1.blocksEnqueued.entries +
      weight (fun item => entryCount p c ⟨item.1, item.2⟩)
        (EmergeManager.cancelItems thread n m).2 =
      weight (entryCount p c) m.blocksEnqueued.entries := by
  induction n generalizing m with
  | zero => simp [EmergeManager.cancelItems, weight]
  | succ n ih =>
    unfold EmergeManager.cancelItems
    cases hr : m.popBlockEmerge thread with
    | none => simp [weight]
    | some r =>
      have hpop := pop_count h hr p c
      have hrest := ih (EmergeManager.popBlockEmerge_inv h hr)
      simp only [weight, List.map_cons, List.sum_cons] at hrest hpop ⊢
      omega

theorem cancelItems_queue (h : m.Inv) {thread n : ℕ} (hn : n = (m.queue thread).length) :
    (EmergeManager.cancelItems thread n m).1.queue thread = [] ∧
      (EmergeManager.cancelItems thread n m).1.queues.length = m.queues.length ∧
      ∀ t, t ≠ thread → (EmergeManager.cancelItems thread n m).1.queue t = m.queue t := by
  induction n generalizing m with
  | zero => exact ⟨List.length_eq_zero_iff.mp hn.symm, rfl, fun _ _ => rfl⟩
  | succ n ih =>
    unfold EmergeManager.cancelItems
    cases hr : m.popBlockEmerge thread with
    | none =>
      cases hq : m.queue thread with
      | nil => simp [hq] at hn
      | cons pos rest =>
        obtain ⟨found, count, -, -, heq⟩ := EmergeManager.popBlockEmerge_cons h hq
        simp [heq] at hr
    | some r =>
      obtain ⟨hq, hlen, hother⟩ := pop_queue h hr
      have hlen' : n = (r.1.queue thread).length := by
        rw [hq, List.length_cons] at hn
        omega
      obtain ⟨h1, h2, h3⟩ := ih (EmergeManager.popBlockEmerge_inv h hr) hlen'
      exact ⟨h1, h2.trans hlen, fun t ht => (h3 t ht).trans (hother t ht)⟩

end Pop

section Queues

variable {m : EmergeManager C}

theorem overLimit_setCount (peer flags : UInt16) :
    (m.setCount peer (m.countPeer peer)).overLimit peer flags = m.overLimit peer flags := by
  have hc : (m.setCount peer (m.countPeer peer)).countPeer peer = m.countPeer peer := by
    simp [EmergeManager.countPeer_setCount]
  unfold EmergeManager.overLimit
  rw [hc]
  rfl

/-- A request adds to the queue of one thread, and to none where the position is known already or
the limits turn it down. -/
theorem enqueue_queue (h : m.Inv) (pos : BlockPos) (peer flags : UInt16) (callback : Option C) :
    (m.enqueueBlockEmergeEx pos peer flags callback).1.queues.length = m.queues.length ∧
      ∀ t, (m.enqueueBlockEmergeEx pos peer flags callback).1.queue t = m.queue t ∨
        (t = m.getOptimalThread ∧ pos ∉ m.blocksEnqueued ∧ m.overLimit peer flags = false) := by
  unfold EmergeManager.enqueueBlockEmergeEx EmergeManager.pushBlockEmergeData
  simp only [overLimit_setCount]
  split_ifs with hover
  · exact ⟨rfl, fun t => .inl rfl⟩
  · cases hlook : m.blocksEnqueued.lookup pos with
    | some old =>
      simp only [EmergeManager.setCount_blocksEnqueued, hlook]
      exact ⟨rfl, fun t => .inl rfl⟩
    | none =>
      simp only [EmergeManager.setCount_blocksEnqueued, hlook]
      refine ⟨by simp [EmergeManager.pushBlock, EmergeManager.setQueue], fun t => ?_⟩
      by_cases ht : t = m.getOptimalThread
      · exact .inr ⟨ht, AList.lookup_eq_none.mp hlook, by simpa using hover⟩
      · refine .inl ?_
        exact (queue_setQueue (EmergeManager.getOptimalThread_lt h.threads) t).trans (if_neg ht)

end Queues

namespace System

/-- A callback that was accepted is due from an item that is done, or it waits; what waits for a
thread that has exited is nothing. -/
structure Inv (s : System C) : Prop where
  manager : s.manager.Inv
  length : s.threads.length = s.manager.queues.length
  counted : ∀ p c, s.accepted.count (p, c) = callCount p c s.due + s.waiting p c

def ExitedEmpty (s : System C) : Prop :=
  ∀ thread, s.threads[thread]? = some .exited → s.manager.queue thread = []

/-- Which steps keep the promise to the callbacks: a new position goes to a thread that runs, and an
item with callbacks is within the limit of the map and leads to no exception. -/
def Kept (s : System C) : Event C → Prop
  | .enqueue blockpos peerId flags _ =>
    s.threads[s.manager.getOptimalThread]? = some .exited →
      blockpos ∈ s.manager.blocksEnqueued ∨ s.manager.overLimit peerId flags = true
  | .finish thread calls =>
    ∀ pos bedata, s.threads[thread]? = some (.working pos bedata) → bedata.callbacks ≠ [] →
      blockposOverMaxLimit pos = false ∧
        ∀ e, calls.process (bedata.flags &&& BLOCK_EMERGE_ALLOW_GEN != 0) ≠ .error e
  | _ => True

variable {s s' : System C}

section Steps

omit [DecidableEq C]

theorem enqueue_step {pos : BlockPos} {peer flags : UInt16} {callback : Option C}
    (hs : s.step (.enqueue pos peer flags callback) = some s') :
    s' = { s with manager := (s.manager.enqueueBlockEmergeEx pos peer flags callback).1, accepted :=
      if (s.manager.enqueueBlockEmergeEx pos peer flags callback).2 then
        s.accepted ++ callback.toList.map (pos, ·) else s.accepted } :=
  (Option.some.inj hs).symm

theorem take_step {thread : ℕ} (hs : s.step (.take thread) = some s') :
    s.threads[thread]? = some .idle ∧ ∃ r, s.manager.popBlockEmerge thread = some r ∧
      s' = { s.setThread thread (.working r.2.1 r.2.2) with manager := r.1 } := by
  simp only [step] at hs
  split at hs
  · rename_i hidle
    obtain ⟨r, hr, heq⟩ := Option.map_eq_some_iff.mp hs
    exact ⟨hidle, r, hr, heq.symm⟩
  · cases hs

theorem finish_step {thread : ℕ} {calls : Calls} (hs : s.step (.finish thread calls) = some s') :
    ∃ pos bedata, s.threads[thread]? = some (.working pos bedata) ∧
      s' = (s.setThread thread .idle).finished
        [⟨pos, bedata, runItem calls pos bedata.flags⟩] := by
  simp only [step] at hs
  split at hs
  · rename_i pos bedata hwork
    exact ⟨pos, bedata, hwork, (Option.some.inj hs).symm⟩
  · cases hs

theorem exit_step {thread : ℕ} (hs : s.step (.exit thread) = some s') :
    s.threads[thread]? = some .idle ∧ s' =
      { s.setThread thread .exited with manager := (s.manager.cancelPendingItems thread).1 }.finished
        ((s.manager.cancelPendingItems thread).2.map cancelledItem) := by
  simp only [step] at hs
  split at hs
  · rename_i hidle
    exact ⟨hidle, (Option.some.inj hs).symm⟩
  · cases hs

theorem start_step {thread : ℕ} (hs : s.step (.start thread) = some s') :
    s.threads[thread]? = some .exited ∧ s' = s.setThread thread .idle := by
  simp only [step] at hs
  split at hs
  · rename_i hex
    exact ⟨hex, (Option.some.inj hs).symm⟩
  · cases hs

theorem due_finished (s : System C) (items : List (Done C)) :
    (s.finished items).due = s.due ++ items.flatMap Done.due := by
  simp [due, finished]

end Steps

section Counted

theorem weight_threads {thread : ℕ} {t : ThreadState C} (h : s.threads[thread]? = some t)
    (t' : ThreadState C) (p : BlockPos) (c : C) :
    weight (threadCount p c) (s.threads.set thread t') + threadCount p c t =
      weight (threadCount p c) s.threads + threadCount p c t' :=
  weight_set h t'

theorem callCount_flatMap (p : BlockPos) (c : C) (items : List (BlockPos × BlockEmergeData C)) :
    callCount p c ((items.map cancelledItem).flatMap Done.due) =
      weight (fun item => entryCount p c ⟨item.1, item.2⟩) items := by
  induction items with
  | nil => rfl
  | cons item items ih =>
    rw [List.map_cons, List.flatMap_cons, callCount_append, ih, callCount_due]
    simp [weight, cancelledItem]

theorem count_callback (pos p : BlockPos) (c : C) (callback : Option C) :
    (callback.toList.map (pos, ·)).count (p, c) =
      if pos = p then callback.toList.count c else 0 := by
  cases callback with
  | none => simp
  | some d => by_cases hp : pos = p <;> by_cases hd : d = c <;> simp [hp, hd]

theorem enqueue_sysInv (h : s.Inv) {pos : BlockPos} {peer flags : UInt16} {callback : Option C}
    (hs : s.step (.enqueue pos peer flags callback) = some s') : s'.Inv := by
  obtain rfl := enqueue_step hs
  obtain ⟨hlen, -⟩ := enqueue_queue h.manager pos peer flags callback
  refine ⟨EmergeManager.enqueue_inv h.manager _ _ _ _, h.length.trans hlen.symm, fun p c => ?_⟩
  have hc := h.counted p c
  unfold waiting due at hc ⊢
  simp only
  split_ifs with hr
  · have hadd := enqueue_accepted hr p c
    rw [List.count_append, count_callback]
    omega
  · rw [enqueue_rejected (by simpa using hr)]
    exact hc

theorem take_sysInv (h : s.Inv) {thread : ℕ} (hs : s.step (.take thread) = some s') : s'.Inv := by
  obtain ⟨hidle, r, hr, rfl⟩ := take_step hs
  obtain ⟨-, hlen, -⟩ := pop_queue h.manager hr
  refine ⟨EmergeManager.popBlockEmerge_inv h.manager hr, ?_, fun p c => ?_⟩
  · simpa [setThread, hlen] using h.length
  · have hc := h.counted p c
    have hpop := pop_count h.manager hr p c
    have hth := weight_threads hidle (.working r.2.1 r.2.2) p c
    unfold waiting due at hc ⊢
    simp only [threadCount, setThread] at hth ⊢
    omega

theorem finish_sysInv (h : s.Inv) {thread : ℕ} {calls : Calls}
    (hs : s.step (.finish thread calls) = some s') : s'.Inv := by
  obtain ⟨pos, bedata, hwork, rfl⟩ := finish_step hs
  refine ⟨h.manager, by simpa [setThread, finished] using h.length, fun p c => ?_⟩
  have hc := h.counted p c
  have hth := weight_threads hwork .idle p c
  rw [due_finished, callCount_append, List.flatMap_singleton, callCount_due]
  unfold waiting due at hc ⊢
  simp only [threadCount, setThread, finished] at hth ⊢
  omega

theorem exit_sysInv (h : s.Inv) {thread : ℕ} (hs : s.step (.exit thread) = some s') : s'.Inv := by
  obtain ⟨hidle, rfl⟩ := exit_step hs
  obtain ⟨-, hlen, -⟩ := cancelItems_queue (n := (s.manager.queue thread).length) h.manager rfl
  refine ⟨EmergeManager.cancelItems_inv h.manager _ _, ?_, fun p c => ?_⟩
  · simp only [finished, setThread, List.length_set, EmergeManager.cancelPendingItems, hlen]
    exact h.length
  · have hc := h.counted p c
    have hcancel := cancelItems_count h.manager thread
      (s.manager.queue thread).length p c
    have hth := weight_threads hidle .exited p c
    rw [due_finished, callCount_append, callCount_flatMap]
    unfold waiting due at hc ⊢
    simp only [threadCount, setThread, finished, EmergeManager.cancelPendingItems] at hth ⊢
    omega

theorem start_sysInv (h : s.Inv) {thread : ℕ} (hs : s.step (.start thread) = some s') : s'.Inv := by
  obtain ⟨hex, rfl⟩ := start_step hs
  refine ⟨h.manager, by simpa [setThread] using h.length, fun p c => ?_⟩
  have hc := h.counted p c
  have hth := weight_threads hex .idle p c
  unfold waiting due at hc ⊢
  simp only [threadCount, setThread] at hth ⊢
  omega

/-- Every step keeps account of the callbacks, whether or not they are called. -/
theorem step_sysInv (h : s.Inv) {e : Event C} (hs : s.step e = some s') : s'.Inv := by
  cases e with
  | enqueue pos peer flags callback => exact enqueue_sysInv h hs
  | take thread => exact take_sysInv h hs
  | finish thread calls => exact finish_sysInv h hs
  | exit thread => exact exit_sysInv h hs
  | start thread => exact start_sysInv h hs

end Counted

section Kept

omit [DecidableEq C]

theorem made_eq_due {d : Done C}
    (h : d.bedata.callbacks = [] ∨ ∃ action, d.ending = .completed action) : d.made = d.due := by
  unfold Done.made Done.due
  rcases h with h | ⟨action, h⟩
  · cases d.ending <;> simp [h, runCompletionCallbacks]
  · rw [h]
    rfl

theorem runItem_completed {calls : Calls} {pos : BlockPos} {flags : UInt16}
    (hlimit : blockposOverMaxLimit pos = false)
    (hthrow : ∀ e, calls.process (flags &&& BLOCK_EMERGE_ALLOW_GEN != 0) ≠ .error e) :
    ∃ action, runItem calls pos flags = .completed action := by
  unfold runItem
  rw [hlimit]
  cases hp : calls.process (flags &&& BLOCK_EMERGE_ALLOW_GEN != 0) with
  | error e => exact absurd hp (hthrow e)
  | ok action => exact ⟨action, rfl⟩

theorem cancelled_made (items : List (BlockPos × BlockEmergeData C)) :
    (items.map cancelledItem).flatMap Done.made = (items.map cancelledItem).flatMap Done.due := by
  refine List.flatMap_congr fun d hd => ?_
  obtain ⟨item, -, rfl⟩ := List.mem_map.mp hd
  exact made_eq_due (.inr ⟨_, rfl⟩)

/-- The items that are done have had the calls they should lead to. -/
theorem called_step {e : Event C} (hk : s.Kept e) (hcalled : s.called = s.due)
    (hs : s.step e = some s') : s'.called = s'.due := by
  cases e with
  | enqueue pos peer flags callback =>
    obtain rfl := enqueue_step hs
    exact hcalled
  | take thread =>
    obtain ⟨-, r, -, rfl⟩ := take_step hs
    exact hcalled
  | finish thread calls =>
    obtain ⟨pos, bedata, hwork, rfl⟩ := finish_step hs
    have hmade : (⟨pos, bedata, runItem calls pos bedata.flags⟩ : Done C).made =
        (⟨pos, bedata, runItem calls pos bedata.flags⟩ : Done C).due := by
      refine made_eq_due ?_
      by_cases hne : bedata.callbacks = []
      · exact .inl hne
      · obtain ⟨hlimit, hthrow⟩ := hk pos bedata hwork hne
        exact .inr (runItem_completed hlimit hthrow)
    rw [due_finished]
    change s.called ++ _ = s.due ++ _
    rw [hcalled, List.flatMap_singleton, List.flatMap_singleton, hmade]
  | exit thread =>
    obtain ⟨-, rfl⟩ := exit_step hs
    rw [due_finished]
    change s.called ++ _ = s.due ++ _
    rw [hcalled, cancelled_made]
  | start thread =>
    obtain ⟨-, rfl⟩ := start_step hs
    exact hcalled

theorem exited_of_set {thread t : ℕ} {st : ThreadState C} (hne : st ≠ .exited)
    (h : (s.threads.set thread st)[t]? = some .exited) :
    t ≠ thread ∧ s.threads[t]? = some .exited := by
  rw [List.getElem?_set] at h
  split_ifs at h with he hlt
  · exact absurd (Option.some.inj h) hne
  · exact ⟨Ne.symm he, h⟩

theorem exitedEmpty_step [DecidableEq C] (h : s.Inv) (hempty : s.ExitedEmpty) {e : Event C}
    (hk : s.Kept e) (hs : s.step e = some s') : s'.ExitedEmpty := by
  intro t ht
  cases e with
  | enqueue pos peer flags callback =>
    obtain rfl := enqueue_step hs
    obtain ⟨-, hqueue⟩ := enqueue_queue h.manager pos peer flags callback
    rcases hqueue t with heq | ⟨rfl, hnew, hlimit⟩
    · exact heq.trans (hempty t ht)
    · rcases hk ht with hmem | hover
      · exact absurd hmem hnew
      · simp [hover] at hlimit
  | take thread =>
    obtain ⟨-, r, hr, rfl⟩ := take_step hs
    obtain ⟨-, -, hother⟩ := pop_queue h.manager hr
    obtain ⟨hne, hex⟩ := exited_of_set (by simp) ht
    exact (hother t hne).trans (hempty t hex)
  | finish thread calls =>
    obtain ⟨pos, bedata, -, rfl⟩ := finish_step hs
    exact hempty t (exited_of_set (by simp) ht).2
  | exit thread =>
    obtain ⟨-, rfl⟩ := exit_step hs
    obtain ⟨hnil, -, hother⟩ := cancelItems_queue (n := (s.manager.queue thread).length) h.manager rfl
    by_cases he : t = thread
    · subst he
      exact hnil
    · change (s.threads.set thread .exited)[t]? = some .exited at ht
      rw [List.getElem?_set_ne (Ne.symm he)] at ht
      exact (hother t he).trans (hempty t ht)
  | start thread =>
    obtain ⟨-, rfl⟩ := start_step hs
    exact hempty t (exited_of_set (by simp) ht).2

end Kept

section Runs

theorem init_sysInv (h : (lts C).init s) : s.Inv ∧ s.called = s.due ∧ s.ExitedEmpty := by
  obtain ⟨hm, hlen, hidle, hacc, hdone, hcalled⟩ := h
  refine ⟨⟨EmergeManager.init_inv hm, hlen, fun p c => ?_⟩, by simp [hcalled, due, hdone],
    fun t ht => ?_⟩
  · have hth : weight (threadCount p c) s.threads = 0 :=
      weight_eq_zero_iff.mpr fun t ht => by rw [hidle t ht]; rfl
    have htable : weight (entryCount p c) s.manager.blocksEnqueued.entries = 0 := by
      rw [hm.1]
      rfl
    simp [hacc, due, hdone, callCount, waiting, hth, htable]
  · have := hidle _ (List.mem_of_getElem? ht)
    cases this

/-- When every thread has exited nothing waits. -/
theorem waiting_eq_zero (h : s.Inv) (hempty : s.ExitedEmpty)
    (hall : ∀ t ∈ s.threads, t = .exited) (p : BlockPos) (c : C) : s.waiting p c = 0 := by
  have hth : weight (threadCount p c) s.threads = 0 :=
    weight_eq_zero_iff.mpr fun t ht => by rw [hall t ht]; rfl
  have htable : weight (entryCount p c) s.manager.blocksEnqueued.entries = 0 := by
    refine weight_eq_zero_iff.mpr fun e he => ?_
    have hmem : e.1 ∈ s.manager.blocksEnqueued := by
      rw [AList.mem_keys]
      exact List.mem_map_of_mem he
    obtain ⟨thread, hthread, -⟩ := (EmergeManager.mem_iff_existsUnique h.manager e.1).mp hmem
    have hlt : thread < s.threads.length := by
      rw [h.length]
      exact lt_length_of_queue_ne (List.ne_nil_of_mem hthread)
    have hnil := hempty thread (by
      rw [List.getElem?_eq_getElem hlt, hall _ (List.getElem_mem hlt)])
    rw [hnil] at hthread
    cases hthread
  rw [waiting, hth, htable]

/-- The promise to the callbacks: each item that is done has led to the calls of its callbacks with
its action, and an accepted callback has been called or waits; when every thread has exited it has
been called. -/
structure Promise (s : System C) : Prop where
  called : s.called = s.due
  counted : ∀ p c, s.accepted.count (p, c) = callCount p c s.called + s.waiting p c
  settled : (∀ t ∈ s.threads, t = .exited) →
    ∀ p c, s.accepted.count (p, c) = callCount p c s.called

theorem promise_of_run (h : (lts C).Run Kept s) : s.Promise := by
  have hall : s.Inv ∧ s.called = s.due ∧ s.ExitedEmpty := by
    refine Lts.Run.invariant (I := fun s => s.Inv ∧ s.called = s.due ∧ s.ExitedEmpty)
      (fun _ => init_sysInv) (fun s e s' hi hk hs => ?_) h
    exact ⟨step_sysInv hi.1 hs, called_step hk hi.2.1 hs, exitedEmpty_step hi.1 hi.2.2 hk hs⟩
  obtain ⟨hinv, hcalled, hempty⟩ := hall
  have hcounted := hinv.counted
  rw [← hcalled] at hcounted
  refine ⟨hcalled, hcounted, fun hex p c => ?_⟩
  rw [hcounted p c, waiting_eq_zero hinv hempty hex p c, Nat.add_zero]

def fresh : System ℕ := { manager := .fresh 4, threads := [.idle] }

theorem fresh_init : (lts ℕ).init fresh :=
  ⟨⟨rfl, fun _ => rfl, by simp [fresh, EmergeManager.fresh], by simp [fresh, EmergeManager.fresh]⟩,
    rfl, by simp [fresh], rfl, rfl, rfl⟩

theorem run_step {ok : System C → Event C → Prop} (h : (lts C).Run ok s) (e : Event C)
    (hk : ok s e) (hs : s.step e = some s') : (lts C).Run ok s' := .step h hk hs

def loading : Calls where
  getBlock _ := .ok none
  loadFromDb := .ok [1]
  loadBlock _ := .ok (some true)
  prepareBlock := .ok ()
  initBlockMake := .ok true
  makeChunk := .ok ()
  onGenerated := .ok true
  finishGen := .ok true
  cancelBlockMake := .ok ()

theorem promise_of_run_loading :
    ∃ s : System ℕ, s.called = [⟨⟨0, 0, 0⟩, .fromDisk, 7⟩] ∧ s.Promise := by
  have h0 : (lts ℕ).Run Kept fresh := .init fresh_init
  have h1 := run_step h0 (.enqueue ⟨0, 0, 0⟩ 1 1 (some 7)) (fun h => by cases h) rfl
  have h2 := run_step h1 (.take 0) trivial rfl
  have h3 := run_step h2 (.finish 0 loading) (fun pos bedata h _ => by
    obtain ⟨rfl, rfl⟩ := ThreadState.working.inj (Option.some.inj h)
    exact ⟨by decide, fun e he => by cases he⟩) rfl
  have h4 := run_step h3 (.exit 0) trivial rfl
  exact ⟨_, rfl, promise_of_run h4⟩

/-- A block beyond the limit of the map; its callback is not called. -/
theorem not_promise : ¬ ∀ s : System ℕ, (lts ℕ).Reach s → s.Promise := by
  intro h
  have h0 : (lts ℕ).Reach fresh := .init fresh_init
  have h1 := run_step h0 (.enqueue ⟨134217689, 0, 0⟩ 0 3 (some 7)) trivial rfl
  have h2 := run_step h1 (.take 0) trivial rfl
  have h3 := run_step h2 (.finish 0 loading) trivial rfl
  have h4 := run_step h3 (.exit 0) trivial rfl
  have hcalled := (h _ h4).called
  exact absurd (congrArg List.length hcalled) (by decide)

end Runs

end System

end Freeminer.Emerge
