import Mathlib.Tactic.Abel
import Freeminer.Client.MeshUpdateQueue

/-! What the mesh update queue promises over any interleaving of its locked sections. That no position
is processed twice holds as long as `clear` discards no entry whose position is being processed. -/

namespace Freeminer.Client

open Lib
open Voxel (V3)

section Entries

variable {β γ : Type} {p : V3} {f : QueuedMeshUpdate β → QueuedMeshUpdate β × γ}
  {qs : List (QueuedMeshUpdate β)} {q : QueuedMeshUpdate β}

/-- Either no entry has the position, or the first one that has it is changed. -/
theorem updateQueued_cases (p : V3) (f : QueuedMeshUpdate β → QueuedMeshUpdate β × γ)
    (qs : List (QueuedMeshUpdate β)) :
    updateQueued p f qs = none ∧ (∀ q ∈ qs, q.p ≠ p) ∨
      ∃ before q after, qs = before ++ q :: after ∧ q.p = p ∧
        updateQueued p f qs = some (before ++ (f q).1 :: after, (f q).2) := by
  induction qs with
  | nil => exact .inl ⟨rfl, by simp⟩
  | cons q qs ih =>
    unfold updateQueued
    by_cases hq : q.p = p
    · exact .inr ⟨[], q, qs, rfl, hq, by rw [if_pos hq]; rfl⟩
    · rw [if_neg hq]
      rcases ih with ⟨hnone, hne⟩ | ⟨before, q', after, rfl, hq', hsome⟩
      · refine .inl ⟨by rw [hnone]; rfl, ?_⟩
        intro x hx
        rcases List.mem_cons.mp hx with rfl | hx
        · exact hq
        · exact hne x hx
      · exact .inr ⟨q :: before, q', after, rfl, hq', by rw [hsome]; rfl⟩

/-- The pointers keep what they have, and the others grab what they get. -/
theorem retrieve_refs (view : MapView β) (ps : List V3) (bs : List (Option β)) :
    ((retrieve view ps bs).1.reduceOption : Multiset β) =
      bs.reduceOption + (retrieve view ps bs).2 := by
  induction ps generalizing bs with
  | nil => cases bs <;> simp [retrieve]
  | cons p ps ih =>
    cases bs with
    | nil => simp [retrieve]
    | cons b bs =>
      have ih := ih bs
      cases b with
      | some b =>
        simp only [retrieve, List.reduceOption_cons_of_some, ← Multiset.cons_coe]
        rw [ih, Multiset.cons_add]
      | none =>
        simp only [retrieve, List.reduceOption_cons_of_none, ← Multiset.coe_add]
        cases view.block p with
        | none => simpa using ih
        | some b =>
          simp only [List.reduceOption_cons_of_some, ← Multiset.cons_coe, ih]
          simp only [Option.toList_some, Multiset.coe_singleton, ← Multiset.singleton_add]
          abel

@[simp] theorem retrieveBlocks_p (q : QueuedMeshUpdate β) (view : MapView β) (cell_size : ℕ) :
    (q.retrieveBlocks view cell_size).1.p = q.p := rfl

theorem retrieveBlocks_refs (q : QueuedMeshUpdate β) (view : MapView β) (cell_size : ℕ) :
    ((q.retrieveBlocks view cell_size).1.map_blocks.reduceOption : Multiset β) =
      q.map_blocks.reduceOption + (q.retrieveBlocks view cell_size).2 := by
  have h := retrieve_refs view (cellBlocks cell_size q.p)
  unfold QueuedMeshUpdate.retrieveBlocks
  dsimp only
  split_ifs with hnil
  · rw [h, hnil, List.reduceOption_replicate_none]
    rfl
  · exact h _

end Entries

namespace MeshUpdates

variable {β : Type} {s s' : MeshUpdates β} {cell_size : ℕ} {pos : β → V3} {i : ℕ}

theorem refresh_p (view : MapView β) (r : MeshRequest) (q : QueuedMeshUpdate β) :
    (refresh cell_size view r q).1.p = q.p := rfl

theorem refresh_refs (view : MapView β) (r : MeshRequest) (q : QueuedMeshUpdate β) :
    ((refresh cell_size view r q).1.map_blocks.reduceOption : Multiset β) =
      q.map_blocks.reduceOption + (refresh cell_size view r q).2 :=
  retrieveBlocks_refs _ view cell_size

theorem newEntry_p (view : MapView β) (r : MeshRequest) :
    (newEntry cell_size view r).1.p = getMeshPos cell_size r.p := rfl

theorem newEntry_refs (view : MapView β) (r : MeshRequest) :
    ((newEntry cell_size view r).1.map_blocks.reduceOption : Multiset β) =
      (newEntry cell_size view r).2 := by
  rw [newEntry, retrieveBlocks_refs]
  exact zero_add _

theorem entryRefs_append (qs qs' : List (QueuedMeshUpdate β)) :
    (entryRefs (qs ++ qs') : Multiset β) = entryRefs qs + entryRefs qs' := by
  rw [entryRefs, List.flatMap_append, Multiset.coe_add]
  rfl

theorem entryRefs_cons (q : QueuedMeshUpdate β) (qs : List (QueuedMeshUpdate β)) :
    (entryRefs (q :: qs) : Multiset β) = q.map_blocks.reduceOption + entryRefs qs := by
  rw [entryRefs, List.flatMap_cons, Multiset.coe_add]
  rfl

theorem resultRefs_append (rs rs' : List (MeshUpdateResult β)) :
    (resultRefs (rs ++ rs') : Multiset β) = resultRefs rs + resultRefs rs' := by
  rw [resultRefs, List.flatMap_append, Multiset.coe_add]
  rfl

/-- A list falls into what is kept and what is not. -/
theorem flatMap_filter {α : Type} (f : α → List β) (P : α → Bool) (l : List α) :
    (l.flatMap f : Multiset β) =
      (l.filter P).flatMap f + (l.filter fun a => !P a).flatMap f := by
  induction l with
  | nil => rfl
  | cons a l ih =>
    rw [List.flatMap_cons, ← Multiset.coe_add, ih, List.filter_cons, List.filter_cons]
    cases P a
    · simp only [Bool.false_eq_true, if_false, Bool.not_false, if_true, List.flatMap_cons,
        ← Multiset.coe_add]
      abel
    · simp only [Bool.not_true, Bool.false_eq_true, if_false, if_true, List.flatMap_cons,
        ← Multiset.coe_add]
      abel

theorem workerRefs_set {ws : List (Worker β)} {v : Worker β} (h : ws[i]? = some v) (w : Worker β) :
    ((ws.set i w).flatMap workerRefs : Multiset β) + workerRefs v =
      ws.flatMap workerRefs + workerRefs w := by
  induction ws generalizing i with
  | nil => simp at h
  | cons x ws ih =>
    cases i with
    | zero =>
      obtain rfl : x = v := by simpa using h
      simp only [List.set_cons_zero, List.flatMap_cons, ← Multiset.coe_add]
      abel
    | succ i =>
      have ih := ih (by simpa using h)
      simp only [List.set_cons_succ, List.flatMap_cons, ← Multiset.coe_add]
      rw [add_assoc, ih]
      abel

/-- The entry that `pop` takes, and the others. -/
theorem takes_cases (s : MeshUpdates β) {q : QueuedMeshUpdate β}
    (h : s.m_queue.find? s.takes = some q) :
    s.takes q = true ∧ ∃ before after, s.m_queue = before ++ q :: after ∧
      s.m_queue.eraseP s.takes = before ++ after := by
  obtain ⟨hq, before, after, hqueue, hbefore⟩ := List.find?_eq_some_iff_append.mp h
  refine ⟨hq, before, after, hqueue, ?_⟩
  rw [hqueue, List.eraseP_append_right _ fun x hx => by simpa using hbefore x hx,
    List.eraseP_cons_of_pos hq]

/-! ## The queue -/

/-- The invariant reads these fields only. -/
theorem Orderly.of_same {t : MeshUpdates β} (h : s.Orderly) (hqueue : t.m_queue = s.m_queue)
    (hurgents : t.m_urgents = s.m_urgents) (hawaited : t.awaited = s.awaited)
    (hrefs : t.grabbed = t.dropped + t.held) : t.Orderly where
  once := hqueue ▸ h.once
  urgent := by
    rw [hqueue, hurgents]
    exact h.urgent
  entry := by
    rw [hqueue, hawaited]
    exact h.entry
  references := hrefs

/-- The positions that are queued after a change. -/
theorem queued_of_map {qs qs' : List (QueuedMeshUpdate β)} (h : qs'.map (·.p) = qs.map (·.p)) {p : V3}
    (hp : ∃ q ∈ qs, q.p = p) : ∃ q ∈ qs', q.p = p := by
  have hmem : p ∈ qs.map (·.p) := by
    obtain ⟨q, hq, rfl⟩ := hp
    exact List.mem_map_of_mem hq
  rw [← h] at hmem
  simpa using hmem

/-- What marking a position as urgent leaves of the invariant. -/
structure Marked (p : V3) (s : MeshUpdates β) : Prop where
  once : (s.m_queue.map (·.p)).Nodup
  urgent : ∀ x ∈ s.m_urgents, x = p ∨ ∃ q ∈ s.m_queue, q.p = x
  entry : ∀ x ∈ s.awaited, ∃ q ∈ s.m_queue, q.p = x
  references : s.grabbed = s.dropped + s.held

theorem Orderly.markUrgent (h : s.Orderly) (p : V3) (urgent : Bool) :
    Marked p (s.markUrgent p urgent) := by
  unfold MeshUpdates.markUrgent
  split_ifs
  · refine ⟨h.once, fun x hx => ?_, h.entry, h.references⟩
    rcases Finset.mem_insert.mp hx with rfl | hx
    · exact .inl rfl
    · exact .inr (h.urgent x hx)
  · exact ⟨h.once, fun x hx => .inr (h.urgent x hx), h.entry, h.references⟩

theorem Marked.refresh {p : V3} (h : s.Marked p) (view : MapView β) (r : MeshRequest)
    {before after : List (QueuedMeshUpdate β)} {q : QueuedMeshUpdate β}
    (hsplit : s.m_queue = before ++ q :: after) (hq : q.p = p) :
    Orderly { s with
      m_queue := before ++ (refresh cell_size view r q).1 :: after
      grabbed := s.grabbed + ((refresh cell_size view r q).2 : Multiset β)
      awaited := insert p s.awaited } := by
  have hmap : (before ++ (MeshUpdates.refresh cell_size view r q).1 :: after).map (·.p) =
      s.m_queue.map (·.p) := by
    rw [hsplit]
    simp [refresh_p]
  have hpos : ∃ q ∈ s.m_queue, q.p = p := ⟨q, by simp [hsplit], hq⟩
  refine ⟨?_, fun x hx => ?_, fun x hx => ?_, ?_⟩
  · dsimp only
    rw [hmap]
    exact h.once
  · rcases h.urgent x hx with rfl | hx
    · exact queued_of_map hmap hpos
    · exact queued_of_map hmap hx
  · rcases Finset.mem_insert.mp hx with rfl | hx
    · exact queued_of_map hmap hpos
    · exact queued_of_map hmap (h.entry x hx)
  · rw [h.references]
    simp only [held, hsplit, entryRefs_append, entryRefs_cons, refresh_refs]
    abel

theorem Marked.skip {p : V3} (h : s.Marked p) {grabs drops : List β}
    (hrefs : (drops : Multiset β) = grabs) :
    Orderly { s with
      m_urgents := s.m_urgents.erase p
      grabbed := s.grabbed + (grabs : Multiset β)
      dropped := s.dropped + (drops : Multiset β) } := by
  refine ⟨h.once, fun x hx => ?_, h.entry, ?_⟩
  · obtain ⟨hne, hx⟩ := Finset.mem_erase.mp hx
    exact (h.urgent x hx).resolve_left hne
  · rw [h.references, hrefs]
    exact add_right_comm s.dropped s.held grabs

/-- A position that is not queued gets an entry. -/
theorem Marked.push {p : V3} (h : s.Marked p) {q : QueuedMeshUpdate β} {grabs : List β}
    (habsent : ∀ q ∈ s.m_queue, q.p ≠ p) (hq : q.p = p)
    (hrefs : (q.map_blocks.reduceOption : Multiset β) = grabs) :
    Orderly { s with
      m_queue := s.m_queue ++ [q]
      grabbed := s.grabbed + (grabs : Multiset β)
      awaited := insert p s.awaited } := by
  have hnew : ∀ x, x = p ∨ (∃ q ∈ s.m_queue, q.p = x) → ∃ q' ∈ s.m_queue ++ [q], q'.p = x := by
    intro x hx
    rcases hx with rfl | ⟨q', hq', rfl⟩
    · exact ⟨q, List.mem_append_right _ List.mem_cons_self, hq⟩
    · exact ⟨q', List.mem_append_left _ hq', rfl⟩
  refine ⟨?_, fun x hx => hnew x (h.urgent x hx), fun x hx => ?_, ?_⟩
  · dsimp only
    rw [List.map_append, List.map_singleton, List.nodup_append_comm]
    refine List.nodup_cons.mpr ⟨fun hmem => ?_, h.once⟩
    obtain ⟨q', hq', heq⟩ := List.mem_map.mp hmem
    exact habsent q' hq' (heq.trans hq)
  · rcases Finset.mem_insert.mp hx with rfl | hx
    · exact hnew _ (.inl rfl)
    · exact hnew x (.inr (h.entry x hx))
  · have hone : (entryRefs [q] : Multiset β) = grabs := by
      rw [← hrefs]
      simp [entryRefs]
    rw [h.references]
    simp only [held, entryRefs_append, hone]
    abel

theorem Orderly.addBlock (h : s.Orderly) (view : MapView β) (r : MeshRequest) :
    (s.addBlock cell_size pos view r).Orderly := by
  unfold MeshUpdates.addBlock
  split_ifs with hnone
  · exact h
  · have hmarked := h.markUrgent (getMeshPos cell_size r.p) r.urgent
    generalize s.markUrgent (getMeshPos cell_size r.p) r.urgent = t at hmarked
    unfold enqueue
    dsimp only
    rcases updateQueued_cases (getMeshPos cell_size r.p) (MeshUpdates.refresh cell_size view r)
      t.m_queue with ⟨hupdate, habsent⟩ | ⟨before, q, after, hsplit, hq, hupdate⟩
    · rw [hupdate]
      dsimp only
      split_ifs
      · exact hmarked.skip (newEntry_refs view r)
      · exact hmarked.push habsent (newEntry_p view r) (newEntry_refs view r)
    · rw [hupdate]
      exact hmarked.refresh view r hsplit hq

theorem Orderly.pop (h : s.Orderly) (hs : s.pop i = some s') : s'.Orderly := by
  unfold MeshUpdates.pop at hs
  split at hs
  · rename_i hw
    split at hs
    · obtain rfl := Option.some.inj hs
      exact h
    · rename_i q hfind
      obtain rfl := Option.some.inj hs
      obtain ⟨-, before, after, hsplit, herase⟩ := s.takes_cases hfind
      have honce := h.once
      have hrest : ∀ x, x ≠ q.p → (∃ r ∈ s.m_queue, r.p = x) →
          ∃ r ∈ s.m_queue.eraseP s.takes, r.p = x := by
        intro x hne hx
        obtain ⟨r, hr, rfl⟩ := hx
        rw [hsplit, List.mem_append, List.mem_cons] at hr
        rw [herase]
        refine ⟨r, ?_, rfl⟩
        rcases hr with hr | rfl | hr
        · exact List.mem_append_left _ hr
        · exact absurd rfl hne
        · exact List.mem_append_right _ hr
      refine ⟨?_, fun x hx => ?_, fun x hx => ?_, ?_⟩
      · exact honce.sublist (List.eraseP_sublist.map _)
      · obtain ⟨hne, hx⟩ := Finset.mem_erase.mp hx
        exact hrest x hne (h.urgent x hx)
      · obtain ⟨hne, hx⟩ := Finset.mem_erase.mp hx
        exact hrest x hne (h.entry x hx)
      · have hworkers := workerRefs_set hw (.making q)
        change _ + (0 : Multiset β) = _ + (q.map_blocks.reduceOption : Multiset β) at hworkers
        rw [add_zero] at hworkers
        rw [h.references]
        simp only [held, herase, hworkers]
        simp only [hsplit, entryRefs_append, entryRefs_cons]
        abel
  · cases hs

theorem Orderly.putResult (h : s.Orderly) (hs : s.putResult i = some s') : s'.Orderly := by
  unfold MeshUpdates.putResult at hs
  split at hs
  · rename_i q hw
    have hworkers := workerRefs_set hw (.reported q.p)
    change _ + (q.map_blocks.reduceOption : Multiset β) = _ + 0 at hworkers
    rw [add_zero] at hworkers
    have hone : (resultRefs [⟨q.p, q.ack_list, q.urgent, q.map_blocks⟩] : Multiset β) =
        q.map_blocks.reduceOption := by
      simp [resultRefs]
    dsimp only at hs
    split_ifs at hs
    all_goals
      obtain rfl := Option.some.inj hs
      refine h.of_same rfl rfl rfl ?_
      rw [h.references]
      simp only [held, resultRefs_append, hone, ← hworkers]
      abel
  · cases hs

theorem Orderly.done (h : s.Orderly) (hs : s.done i = some s') : s'.Orderly := by
  unfold MeshUpdates.done at hs
  split at hs
  · rename_i p hw
    obtain rfl := Option.some.inj hs
    have hworkers := workerRefs_set hw .idle
    refine h.of_same rfl rfl rfl ?_
    rw [h.references]
    change _ + (0 : Multiset β) = _ + 0 at hworkers
    rw [add_zero, add_zero] at hworkers
    simp only [held, hworkers]
  · cases hs

theorem Orderly.clear (h : s.Orderly) (finish : Bool) : (s.clear finish).Orderly := by
  have hrest : ∀ x, x ∉ ((s.m_queue.filter (discards finish)).map (·.p)).toFinset →
      (∃ q ∈ s.m_queue, q.p = x) → ∃ q ∈ s.m_queue.filter (fun q => !discards finish q), q.p = x := by
    intro x hnot hx
    obtain ⟨q, hq, rfl⟩ := hx
    refine ⟨q, List.mem_filter.mpr ⟨hq, ?_⟩, rfl⟩
    by_contra hgone
    apply hnot
    rw [List.mem_toFinset]
    exact List.mem_map_of_mem (List.mem_filter.mpr ⟨hq, by simpa using hgone⟩)
  refine ⟨h.once.sublist (List.filter_sublist.map _), fun x hx => ?_, fun x hx => ?_, ?_⟩
  · obtain ⟨hx, hnot⟩ := Finset.mem_sdiff.mp hx
    exact hrest x hnot (h.urgent x hx)
  · obtain ⟨hx, hnot⟩ := Finset.mem_sdiff.mp hx
    exact hrest x hnot (h.entry x hx)
  · have hsplit := flatMap_filter (fun q : QueuedMeshUpdate β => q.map_blocks.reduceOption)
      (discards finish) s.m_queue
    rw [MeshUpdates.clear]
    dsimp only
    rw [h.references]
    unfold held entryRefs
    dsimp only
    rw [hsplit]
    abel

theorem Orderly.nextResult (h : s.Orderly) : s.nextResult.Orderly := by
  have hcons : ∀ (r : MeshUpdateResult β) rs,
      (resultRefs (r :: rs) : Multiset β) = resultRefs [r] + resultRefs rs :=
    fun r rs => resultRefs_append [r] rs
  unfold MeshUpdates.nextResult
  split
  · rename_i r rs hout
    refine h.of_same rfl rfl rfl ?_
    dsimp only
    rw [h.references]
    simp only [held, hout]
    rw [hcons r rs]
    abel
  · rename_i r rs hurgent hout
    refine h.of_same rfl rfl rfl ?_
    dsimp only
    rw [h.references]
    simp only [held, hout]
    rw [hcons r rs]
    abel
  · exact h

theorem Orderly.clearOut (h : s.Orderly) (urgent finish : Bool) :
    (s.clearOut urgent finish).Orderly := by
  have hsplit := flatMap_filter (fun r : MeshUpdateResult β => r.map_blocks.reduceOption)
    (discardsResult finish)
  unfold MeshUpdates.clearOut
  split_ifs
  all_goals
    refine h.of_same rfl rfl rfl ?_
    dsimp only
    rw [h.references]
    unfold held resultRefs
    dsimp only
  · rw [hsplit s.m_queue_out_urgent]
    abel
  · rw [hsplit s.m_queue_out]
    abel

theorem orderly_start (n : ℕ) : Orderly ({ workers := List.replicate n .idle } : MeshUpdates β) where
  once := List.nodup_nil
  urgent := by simp
  entry := by simp
  references := by
    have hidle : (List.replicate n (Worker.idle (β := β))).flatMap workerRefs = [] := by
      rw [List.flatMap_eq_nil_iff]
      intro w hw
      rw [List.eq_of_mem_replicate hw]
      rfl
    change (0 : Multiset β) = 0 + (_ + _ + _ + _)
    rw [hidle]
    rfl

theorem Orderly.step (h : s.Orderly) {op : MeshOp β} (hs : s.step cell_size pos op = some s') :
    s'.Orderly := by
  cases op with
  | addBlock view r => exact Option.some.inj hs ▸ h.addBlock view r
  | pop worker => exact h.pop hs
  | putResult worker => exact h.putResult hs
  | done worker => exact h.done hs
  | clear finish => exact Option.some.inj hs ▸ h.clear finish
  | nextResult => exact Option.some.inj hs ▸ h.nextResult
  | clearOut urgent finish => exact Option.some.inj hs ▸ h.clearOut urgent finish

/-! ## The workers -/

/-- The positions that workers process are in flight, each at one worker. -/
structure Guarded (s : MeshUpdates β) : Prop where
  inflight : ∀ (i : ℕ) (w : Worker β) (p : V3), s.workers[i]? = some w → w.processing = some p →
    p ∈ s.m_inflight_blocks
  exclusive : s.Exclusive

theorem Guarded.of_same {t : MeshUpdates β} (h : s.Guarded) (hworkers : t.workers = s.workers)
    (hinflight : t.m_inflight_blocks = s.m_inflight_blocks) : t.Guarded := by
  refine ⟨?_, ?_⟩
  · rw [hworkers, hinflight]
    exact h.inflight
  · unfold Exclusive
    rw [hworkers]
    exact h.exclusive

/-- A worker goes on: what it processes is what it did, or no other worker does. -/
theorem Guarded.set {t : MeshUpdates β} {v w : Worker β} (h : s.Guarded) (hi : s.workers[i]? = some v)
    (hworkers : t.workers = s.workers.set i w)
    (hown : ∀ p, w.processing = some p → p ∈ t.m_inflight_blocks ∧
      ∀ j x, j ≠ i → s.workers[j]? = some x → x.processing ≠ some p)
    (hothers : ∀ j x p, j ≠ i → s.workers[j]? = some x → x.processing = some p →
      p ∈ t.m_inflight_blocks) : t.Guarded := by
  have hlt : i < s.workers.length := (List.getElem?_eq_some_iff.mp hi).1
  have hget : ∀ j x, t.workers[j]? = some x →
      j = i ∧ x = w ∨ j ≠ i ∧ s.workers[j]? = some x := by
    intro j x hx
    rw [hworkers] at hx
    by_cases hj : i = j
    · subst hj
      rw [List.getElem?_set_self hlt] at hx
      exact .inl ⟨rfl, (Option.some.inj hx).symm⟩
    · rw [List.getElem?_set_ne hj] at hx
      exact .inr ⟨fun h => hj h.symm, hx⟩
  refine ⟨fun j x p hx hp => ?_, fun j k x y p hx hy hxp hyp => ?_⟩
  · rcases hget j x hx with ⟨-, rfl⟩ | ⟨hj, hx⟩
    · exact (hown p hp).1
    · exact hothers j x p hj hx hp
  · rcases hget j x hx with ⟨rfl, rfl⟩ | ⟨hj, hx⟩ <;> rcases hget k y hy with ⟨rfl, rfl⟩ | ⟨hk, hy⟩
    · rfl
    · exact absurd hyp ((hown p hxp).2 k y hk hy)
    · exact absurd hxp ((hown p hyp).2 j x hj hx)
    · exact h.exclusive j k x y p hx hy hxp hyp

theorem Guarded.addBlock (h : s.Guarded) (view : MapView β) (r : MeshRequest) :
    (s.addBlock cell_size pos view r).Guarded := by
  unfold MeshUpdates.addBlock
  split_ifs
  · exact h
  · have hmark : (s.markUrgent (getMeshPos cell_size r.p) r.urgent).Guarded := by
      unfold MeshUpdates.markUrgent
      split_ifs
      · exact h.of_same rfl rfl
      · exact h
    unfold enqueue
    dsimp only
    split
    · exact hmark.of_same rfl rfl
    · split_ifs
      all_goals exact hmark.of_same rfl rfl

theorem Guarded.pop (h : s.Guarded) (hs : s.pop i = some s') : s'.Guarded := by
  unfold MeshUpdates.pop at hs
  split at hs
  · rename_i hw
    split at hs
    · exact Option.some.inj hs ▸ h
    · rename_i q hfind
      obtain rfl := Option.some.inj hs
      have hfree : q.p ∉ s.m_inflight_blocks := by
        have htakes := (s.takes_cases hfind).1
        simp only [takes, Bool.and_eq_true, decide_eq_true_eq] at htakes
        exact htakes.2
      refine h.set hw rfl ?_ ?_
      · intro p hp
        obtain rfl : q.p = p := Option.some.inj hp
        refine ⟨Finset.mem_insert_self _ _, fun j x _ hx hxp => ?_⟩
        exact hfree (h.inflight j x q.p hx hxp)
      · intro j x p _ hx hp
        exact Finset.mem_insert_of_mem (h.inflight j x p hx hp)
  · cases hs

theorem Guarded.putResult (h : s.Guarded) (hs : s.putResult i = some s') : s'.Guarded := by
  unfold MeshUpdates.putResult at hs
  split at hs
  · rename_i q hw
    have hown : ∀ p, (Worker.reported (β := β) q.p).processing = some p → p ∈ s.m_inflight_blocks ∧
        ∀ j x, j ≠ i → s.workers[j]? = some x → x.processing ≠ some p := by
      intro p hp
      obtain rfl : q.p = p := Option.some.inj hp
      refine ⟨h.inflight i _ q.p hw rfl, fun j x hj hx hxp => ?_⟩
      exact hj (h.exclusive j i x _ q.p hx hw hxp rfl)
    have hothers : ∀ j x p, j ≠ i → s.workers[j]? = some x → x.processing = some p →
        p ∈ s.m_inflight_blocks := fun j x p _ hx hp => h.inflight j x p hx hp
    dsimp only at hs
    split_ifs at hs
    all_goals
      obtain rfl := Option.some.inj hs
      exact h.set hw rfl hown hothers
  · cases hs

theorem Guarded.done (h : s.Guarded) (hs : s.done i = some s') : s'.Guarded := by
  unfold MeshUpdates.done at hs
  split at hs
  · rename_i p hw
    obtain rfl := Option.some.inj hs
    refine h.set hw rfl ?_ ?_
    · intro p' hp'
      cases hp'
    · intro j x p' hj hx hp'
      refine Finset.mem_erase.mpr ⟨?_, h.inflight j x p' hx hp'⟩
      rintro rfl
      exact hj (h.exclusive j i x _ p' hx hw hp' rfl)
  · cases hs

theorem Guarded.clear (h : s.Guarded) {finish : Bool} (hok : s.KeepsInflight (.clear finish)) :
    (s.clear finish).Guarded := by
  refine h.of_same rfl ?_
  apply Finset.sdiff_eq_self_of_disjoint
  rw [Finset.disjoint_right]
  intro p hp
  rw [List.mem_toFinset] at hp
  obtain ⟨q, hq, rfl⟩ := List.mem_map.mp hp
  obtain ⟨hq, hgone⟩ := List.mem_filter.mp hq
  exact hok q hq hgone

theorem guarded_start (n : ℕ) : Guarded ({ workers := List.replicate n .idle } : MeshUpdates β) := by
  have hidle : ∀ (i : ℕ) (w : Worker β) (p : V3), (List.replicate n .idle)[i]? = some w →
      w.processing ≠ some p := by
    intro i w p hw
    rw [List.eq_of_mem_replicate (List.mem_of_getElem? hw)]
    simp [Worker.processing]
  exact ⟨fun i w p hw hp => absurd hp (hidle i w p hw),
    fun i _ w _ p hw _ hp _ => absurd hp (hidle i w p hw)⟩

theorem Guarded.step (h : s.Guarded) {op : MeshOp β} (hok : s.KeepsInflight op)
    (hs : s.step cell_size pos op = some s') : s'.Guarded := by
  cases op with
  | addBlock view r => exact Option.some.inj hs ▸ h.addBlock view r
  | pop worker => exact h.pop hs
  | putResult worker => exact h.putResult hs
  | done worker => exact h.done hs
  | clear finish => exact Option.some.inj hs ▸ h.clear hok
  | nextResult =>
    obtain rfl := Option.some.inj hs
    unfold MeshUpdates.nextResult
    split
    all_goals exact h.of_same rfl rfl
  | clearOut urgent finish =>
    obtain rfl := Option.some.inj hs
    unfold MeshUpdates.clearOut
    split_ifs
    all_goals exact h.of_same rfl rfl

/-! ## Runs -/

theorem orderly_run (h : (system cell_size pos).Reach s) : s.Orderly := by
  refine h.invariant (fun s h0 => ?_) fun s op s' h _ hs => h.step hs
  obtain ⟨n, rfl⟩ := h0
  exact orderly_start n

/-- Where no entry is discarded while its position is being processed, no position is processed
twice at a time. -/
theorem orderly_exclusive_run (h : (system cell_size pos).Run KeepsInflight s) :
    s.Orderly ∧ s.Exclusive := by
  refine ⟨orderly_run (h.mono fun _ _ _ => trivial), ?_⟩
  have hguarded : s.Guarded := by
    refine h.invariant (fun s h0 => ?_) fun s op s' h hok hs => h.step hok hs
    obtain ⟨n, rfl⟩ := h0
    exact guarded_start n
  exact hguarded.exclusive

def oneBlock : MapView Unit where
  block p := if p = ⟨0, 0, 0⟩ then some () else none
  isAir _ := false

/-- Requests for the block and the steps of two workers, one operation after the other. -/
def twoWorkers (ok : MeshUpdates Unit → MeshOp Unit → Prop) [∀ s op, Decidable (ok s op)]
    (ops : List (MeshOp Unit)) : Option (MeshUpdates Unit) :=
  Lts.execAll (fun op s => s.step 1 (fun _ => ⟨0, 0, 0⟩) op) ok ops
    { workers := List.replicate 2 .idle }

theorem run_twoWorkers {ok : MeshUpdates Unit → MeshOp Unit → Prop} [∀ s op, Decidable (ok s op)]
    {ops : List (MeshOp Unit)} {s : MeshUpdates Unit} (h : twoWorkers ok ops = some s) :
    (system 1 fun _ => ⟨0, 0, 0⟩).Run ok s :=
  Lts.Run.execAll _ _ (fun _ _ _ hs => hs) (.init ⟨2, rfl⟩) h

/-- The block is requested again while it is being processed. -/
theorem orderly_exclusive_run_again : ∃ s : MeshUpdates Unit,
    s.workers.map Worker.processing = [none, some ⟨0, 0, 0⟩] ∧ s.Orderly ∧ s.Exclusive := by
  have hrun : (twoWorkers KeepsInflight [.addBlock oneBlock { p := ⟨0, 0, 0⟩ }, .pop 0,
      .addBlock oneBlock { p := ⟨0, 0, 0⟩ }, .putResult 0, .done 0, .clear false,
      .addBlock oneBlock { p := ⟨0, 0, 0⟩ }, .pop 1]).map
        (fun s => s.workers.map Worker.processing) = some [none, some ⟨0, 0, 0⟩] := by
    decide +kernel
  obtain ⟨s, hs, hworkers⟩ := Option.map_eq_some_iff.mp hrun
  exact ⟨s, hworkers, orderly_exclusive_run (run_twoWorkers hs)⟩

/-- A clear that discards the second request takes the block out of flight, and a third request for it
is processed beside the first. -/
theorem not_exclusive_run : ¬ ∀ s : MeshUpdates Unit,
    (system 1 fun _ => ⟨0, 0, 0⟩).Reach s → s.Orderly ∧ s.Exclusive := by
  intro h
  have hrun : (twoWorkers (fun _ _ => True) [.addBlock oneBlock { p := ⟨0, 0, 0⟩ }, .pop 0,
      .addBlock oneBlock { p := ⟨0, 0, 0⟩ }, .clear false,
      .addBlock oneBlock { p := ⟨0, 0, 0⟩ }, .pop 1]).map
        (fun s => s.workers.map Worker.processing) =
          some [some ⟨0, 0, 0⟩, some ⟨0, 0, 0⟩] := by
    decide +kernel
  obtain ⟨s, hs, hworkers⟩ := Option.map_eq_some_iff.mp hrun
  have hget : ∀ i < 2, ∃ w, s.workers[i]? = some w ∧ w.processing = some ⟨0, 0, 0⟩ := by
    intro i hi
    have := congrArg (fun l : List (Option V3) => l[i]?) hworkers
    rw [List.getElem?_map] at this
    apply Option.map_eq_some_iff.mp
    rw [this]
    interval_cases i <;> rfl
  obtain ⟨v, hv, hvp⟩ := hget 0 (by decide)
  obtain ⟨w, hw, hwp⟩ := hget 1 (by decide)
  exact absurd ((h s (run_twoWorkers hs)).2 0 1 v w _ hv hw hvp hwp) (by decide)

end MeshUpdates

end Freeminer.Client
