import Freeminer.Block.NodeMetadata
import Freeminer.Lib.Machine

/-! `NodeTimerList` over time, with exact times: the timers sorted by the times at which they go
off, an index of iterators into them, and the next of these times. -/

namespace Freeminer.Block.Timers

open Lib

structure NodeTimer where
  timeout : ℚ := 0
  elapsed : ℚ := 0
  position : NodePos
  deriving DecidableEq

/-- An entry of the multimap. An iterator knows it by its id. -/
structure Entry where
  id : ℕ
  first : ℚ
  second : NodeTimer

structure NodeTimerList where
  timers : List Entry := []
  iterators : NodePos → Option ℕ := fun _ => none
  nextTriggerTime : ℚ := -1
  time : ℚ := 0
  nextId : ℕ := 0

namespace NodeTimerList

/-- `m_timers.begin()->first`, or the value for none. -/
def beginTime : List Entry → ℚ
  | [] => -1
  | e :: _ => e.first

def remove (l : NodeTimerList) (p : NodePos) : NodeTimerList :=
  match l.iterators p with
  | none => l
  | some n =>
    let removedTime := (l.timers.find? (·.id = n)).map Entry.first
    let timers := l.timers.filter (·.id ≠ n)
    { l with
      timers
      iterators := Function.update l.iterators p none
      nextTriggerTime := if removedTime = some l.nextTriggerTime then beginTime timers
        else l.nextTriggerTime }

/-- `m_timers.emplace`: behind the timers of the same time. -/
def emplace (e : Entry) : List Entry → List Entry
  | [] => [e]
  | d :: timers => if e.first < d.first then e :: d :: timers else d :: emplace e timers

def triggerTime (l : NodeTimerList) (t : NodeTimer) : ℚ := l.time + (t.timeout - t.elapsed)

/-- What `insert` adds. -/
def entry (l : NodeTimerList) (t : NodeTimer) : Entry := ⟨l.nextId, l.triggerTime t, t⟩

/-- `m_iterators.emplace` leaves an iterator that is there. -/
def insert (l : NodeTimerList) (t : NodeTimer) : NodeTimerList :=
  { l with
    timers := emplace (l.entry t) l.timers
    iterators := if (l.iterators t.position).isSome then l.iterators
      else Function.update l.iterators t.position (some l.nextId)
    nextTriggerTime :=
      if l.nextTriggerTime = -1 ∨ l.triggerTime t < l.nextTriggerTime then l.triggerTime t
      else l.nextTriggerTime
    nextId := l.nextId + 1 }

def set (l : NodeTimerList) (t : NodeTimer) : NodeTimerList := (l.remove t.position).insert t

def clear (l : NodeTimerList) : NodeTimerList :=
  { l with timers := [], iterators := fun _ => none, nextTriggerTime := -1 }

def elapsedTimer (time : ℚ) (e : Entry) : NodeTimer :=
  { e.second with elapsed := e.second.timeout + (time - e.first) }

def step (l : NodeTimerList) (dtime : ℚ) : NodeTimerList × List NodeTimer :=
  let l := { l with time := l.time + dtime }
  if l.nextTriggerTime = -1 ∨ l.time < l.nextTriggerTime then (l, [])
  else
    let elapsed := l.timers.takeWhile (·.first ≤ l.time)
    let timers := l.timers.dropWhile (·.first ≤ l.time)
    ({ l with
        timers
        iterators := fun p => if p ∈ elapsed.map (·.second.position) then none else l.iterators p
        nextTriggerTime := beginTime timers },
      elapsed.map (elapsedTimer l.time))

end NodeTimerList

inductive Op where
  | set (t : NodeTimer)
  | remove (p : NodePos)
  | clear
  | insert (t : NodeTimer)
  | step (dtime : ℚ)

/-- A list of timers, with the timers that go off as the answers. -/
def timerMachine : Machine NodeTimerList Op (List NodeTimer) where
  init := {}
  step l op := some <| match op with
    | .set t => (l.set t, [])
    | .remove p => (l.remove p, [])
    | .clear => (l.clear, [])
    | .insert t => (l.insert t, [])
    | .step dtime => l.step dtime

/-! ## The multimap -/

open NodeTimerList

variable {l : NodeTimerList} {e d : Entry} {timers : List Entry} {p : NodePos} {t : NodeTimer}

theorem mem_emplace : d ∈ emplace e timers ↔ d = e ∨ d ∈ timers := by
  induction timers with
  | nil => simp [emplace]
  | cons c timers ih =>
    unfold emplace
    split_ifs
    · simp
    · rw [List.mem_cons, List.mem_cons, ih]
      tauto

theorem perm_emplace (e : Entry) (timers : List Entry) : (emplace e timers).Perm (e :: timers) := by
  induction timers with
  | nil => exact .refl _
  | cons c timers ih =>
    unfold emplace
    split_ifs
    · exact .refl _
    · exact (ih.cons c).trans (.swap _ _ _)

theorem sorted_emplace (h : timers.Pairwise fun a b => a.first ≤ b.first) :
    (emplace e timers).Pairwise fun a b => a.first ≤ b.first := by
  induction timers with
  | nil => simp [emplace]
  | cons c timers ih =>
    rw [List.pairwise_cons] at h
    unfold emplace
    split_ifs with hlt
    · rw [List.pairwise_cons, List.pairwise_cons]
      refine ⟨fun d hd => ?_, h⟩
      rcases List.mem_cons.mp hd with rfl | hd
      · exact hlt.le
      · exact hlt.le.trans (h.1 d hd)
    · rw [List.pairwise_cons]
      refine ⟨fun d hd => ?_, ih h.2⟩
      rcases mem_emplace.mp hd with rfl | hd
      · exact not_lt.mp hlt
      · exact h.1 d hd

theorem beginTime_emplace (hne : timers ≠ []) :
    beginTime (emplace e timers) = if e.first < beginTime timers then e.first
      else beginTime timers := by
  cases timers with
  | nil => exact absurd rfl hne
  | cons c timers =>
    unfold emplace
    split_ifs with hlt h h
    · rfl
    · exact absurd hlt h
    · exact absurd h hlt
    · rfl

theorem beginTime_le (h : timers.Pairwise fun a b => a.first ≤ b.first) (he : e ∈ timers) :
    beginTime timers ≤ e.first := by
  cases timers with
  | nil => cases he
  | cons c timers =>
    rcases List.mem_cons.mp he with rfl | he
    · exact le_rfl
    · exact (List.pairwise_cons.mp h).1 e he

theorem beginTime_mem (hne : timers ≠ []) : ∃ e ∈ timers, e.first = beginTime timers := by
  cases timers with
  | nil => exact absurd rfl hne
  | cons c timers => exact ⟨c, List.mem_cons_self, rfl⟩

theorem takeWhile_eq_filter (time : ℚ) (h : timers.Pairwise fun a b => a.first ≤ b.first) :
    timers.takeWhile (·.first ≤ time) = timers.filter (·.first ≤ time) ∧
      timers.dropWhile (·.first ≤ time) = timers.filter (time < ·.first) := by
  induction timers with
  | nil => exact ⟨rfl, rfl⟩
  | cons c timers ih =>
    rw [List.pairwise_cons] at h
    obtain ⟨htake, hdrop⟩ := ih h.2
    by_cases hc : c.first ≤ time
    · simp [hc, htake, hdrop, not_lt.mpr hc]
    · have hall : ∀ d ∈ timers, time < d.first := fun d hd => (not_le.mp hc).trans_le (h.1 d hd)
      have hnone : timers.filter (fun e => decide (e.first ≤ time)) = [] := by
        rw [List.filter_eq_nil_iff]
        intro d hd
        simpa using hall d hd
      have hsome : timers.filter (fun e => decide (time < e.first)) = timers := by
        rw [List.filter_eq_self]
        intro d hd
        simpa using hall d hd
      simp [hc, not_le.mp hc, hnone, hsome]

/-! ## The invariant -/

/-- The timers are sorted, the iterators are those of the timers, and the next time is that of the
first timer. No timer goes off at the time that stands for none. -/
structure Inv (l : NodeTimerList) : Prop where
  sorted : l.timers.Pairwise fun a b => a.first ≤ b.first
  ids : (l.timers.map Entry.id).Nodup
  fresh : ∀ e ∈ l.timers, e.id < l.nextId
  iterators : ∀ p n, l.iterators p = some n ↔ ∃ e ∈ l.timers, e.second.position = p ∧ e.id = n
  next : l.nextTriggerTime = beginTime l.timers
  first : ∀ e ∈ l.timers, e.first ≠ -1

theorem Inv.eq_of_id (h : Inv l) (he : e ∈ l.timers) (hd : d ∈ l.timers) (hid : e.id = d.id) :
    e = d := List.inj_on_of_nodup_map h.ids he hd hid

theorem Inv.eq_of_position (h : Inv l) (he : e ∈ l.timers) (hd : d ∈ l.timers)
    (hp : e.second.position = d.second.position) : e = d := by
  have hit := (h.iterators _ _).mpr ⟨e, he, rfl, rfl⟩
  have hit' := (h.iterators _ _).mpr ⟨d, hd, rfl, rfl⟩
  rw [hp, hit'] at hit
  exact h.eq_of_id he hd (Option.some.inj hit).symm

theorem Inv.next_eq_iff (h : Inv l) : l.nextTriggerTime = -1 ↔ l.timers = [] := by
  rw [h.next]
  constructor
  · intro hnone
    by_contra hne
    obtain ⟨e, he, hfirst⟩ := beginTime_mem hne
    exact h.first e he (hfirst.trans hnone)
  · intro hnil
    rw [hnil]
    rfl

theorem inv_init : Inv {} := ⟨.nil, .nil, by simp, by simp, rfl, by simp⟩

theorem inv_clear (l : NodeTimerList) : Inv l.clear :=
  ⟨.nil, .nil, by simp [NodeTimerList.clear], by simp [NodeTimerList.clear], rfl,
    by simp [NodeTimerList.clear]⟩

theorem Inv.insert (h : Inv l) (hp : l.iterators t.position = none) (ht : l.triggerTime t ≠ -1) :
    Inv (l.insert t) := by
  have hmem : ∀ {d : Entry}, d ∈ (l.insert t).timers ↔ d = l.entry t ∨ d ∈ l.timers := mem_emplace
  have hperm : (l.insert t).timers.Perm (l.entry t :: l.timers) := perm_emplace _ _
  have hnew : ∀ e ∈ l.timers, e.second.position ≠ t.position := fun e he heq => by
    have hit := (h.iterators t.position e.id).mpr ⟨e, he, heq, rfl⟩
    rw [hp] at hit
    cases hit
  refine ⟨sorted_emplace h.sorted, ?_, ?_, fun p n => ?_, ?_, ?_⟩
  · rw [(hperm.map Entry.id).nodup_iff, List.map_cons, List.nodup_cons]
    refine ⟨fun hin => ?_, h.ids⟩
    obtain ⟨e, he, hid⟩ := List.mem_map.mp hin
    exact absurd hid (h.fresh e he).ne
  · intro e he
    rcases hmem.mp he with rfl | he
    · exact Nat.lt_succ_self _
    · exact (h.fresh e he).trans (Nat.lt_succ_self _)
  · have hiter : (l.insert t).iterators = Function.update l.iterators t.position (some l.nextId) :=
      if_neg (by simp [hp])
    rw [hiter]
    by_cases hpt : p = t.position
    · subst hpt
      rw [Function.update_self, Option.some.injEq]
      constructor
      · rintro rfl
        exact ⟨l.entry t, hmem.mpr (.inl rfl), rfl, rfl⟩
      · rintro ⟨e, he, hpos, rfl⟩
        rcases hmem.mp he with rfl | he
        · rfl
        · exact absurd hpos (hnew e he)
    · rw [Function.update_of_ne hpt, h.iterators]
      constructor
      · rintro ⟨e, he, hpos, hid⟩
        exact ⟨e, hmem.mpr (.inr he), hpos, hid⟩
      · rintro ⟨e, he, hpos, hid⟩
        rcases hmem.mp he with rfl | he
        · exact absurd hpos.symm hpt
        · exact ⟨e, he, hpos, hid⟩
  · change (if l.nextTriggerTime = -1 ∨ l.triggerTime t < l.nextTriggerTime then l.triggerTime t
      else l.nextTriggerTime) = beginTime (emplace (l.entry t) l.timers)
    by_cases hnil : l.timers = []
    · rw [if_pos (.inl (h.next_eq_iff.mpr hnil)), hnil]
      rfl
    · rw [beginTime_emplace hnil, h.next]
      have hne : ¬beginTime l.timers = -1 := fun heq =>
        hnil (h.next_eq_iff.mp (h.next.trans heq))
      simp only [hne, false_or]
      rfl
  · intro e he
    rcases hmem.mp he with rfl | he
    · exact ht
    · exact h.first e he

theorem Inv.find (h : Inv l) {n : ℕ} (hp : l.iterators p = some n) :
    ∃ e ∈ l.timers, e.second.position = p ∧ e.id = n ∧ l.timers.find? (·.id = n) = some e := by
  obtain ⟨e, he, hpos, rfl⟩ := (h.iterators p n).mp hp
  refine ⟨e, he, hpos, rfl, ?_⟩
  cases hfind : l.timers.find? (·.id = e.id) with
  | none =>
    have hne := List.find?_eq_none.mp hfind e he
    simp at hne
  | some d =>
    have hid : d.id = e.id := by simpa using List.find?_some hfind
    rw [h.eq_of_id (List.mem_of_find?_eq_some hfind) he hid]

theorem Inv.remove (h : Inv l) (p : NodePos) : Inv (l.remove p) := by
  cases hp : l.iterators p with
  | none =>
    have heq : l.remove p = l := by
      unfold NodeTimerList.remove
      rw [hp]
    exact heq.symm ▸ h
  | some n =>
    obtain ⟨e, he, hpos, rfl, hfind⟩ := h.find hp
    have heq : l.remove p = { l with
        timers := l.timers.filter (·.id ≠ e.id)
        iterators := Function.update l.iterators p none
        nextTriggerTime := if some e.first = some l.nextTriggerTime then
            beginTime (l.timers.filter (·.id ≠ e.id)) else l.nextTriggerTime } := by
      unfold NodeTimerList.remove
      rw [hp]
      dsimp only
      rw [hfind]
      rfl
    have hmem : ∀ {d : Entry}, d ∈ l.timers.filter (·.id ≠ e.id) ↔ d ∈ l.timers ∧ d.id ≠ e.id := by
      simp
    rw [heq]
    refine ⟨h.sorted.filter _, h.ids.sublist (List.filter_sublist.map _), ?_, fun q m => ?_, ?_, ?_⟩
    · exact fun d hd => h.fresh d (hmem.mp hd).1
    · change Function.update l.iterators p none q = some m ↔ _
      by_cases hq : q = p
      · subst hq
        rw [Function.update_self]
        constructor
        · intro hnone
          cases hnone
        · rintro ⟨d, hd, hdpos, rfl⟩
          obtain ⟨hd, hne⟩ := hmem.mp hd
          exact absurd (congrArg Entry.id (h.eq_of_position hd he (hdpos.trans hpos.symm))) hne
      · rw [Function.update_of_ne hq, h.iterators]
        constructor
        · rintro ⟨d, hd, hdpos, rfl⟩
          refine ⟨d, hmem.mpr ⟨hd, fun hid => hq ?_⟩, hdpos, rfl⟩
          rw [← hdpos, h.eq_of_id hd he hid, hpos]
        · rintro ⟨d, hd, hdpos, rfl⟩
          exact ⟨d, (hmem.mp hd).1, hdpos, rfl⟩
    · dsimp only
      by_cases hfirst : e.first = l.nextTriggerTime
      · exact if_pos (congrArg some hfirst)
      · -- another timer is the first one
        rw [if_neg fun heq => hfirst (Option.some.inj heq)]
        rw [h.next] at hfirst ⊢
        cases htimers : l.timers with
        | nil => rw [htimers] at he; cases he
        | cons c timers =>
          have hc : c.id ≠ e.id := fun hid => hfirst (by
            rw [← h.eq_of_id (htimers ▸ List.mem_cons_self) he hid, htimers]
            rfl)
          rw [List.filter_cons_of_pos (by simpa using hc)]
          rfl
    · exact fun d hd => h.first d (hmem.mp hd).1

theorem Inv.step_eq (h : Inv l) (dtime : ℚ) : l.step dtime = ({ l with
      time := l.time + dtime
      timers := l.timers.filter (l.time + dtime < ·.first)
      iterators := fun p => if p ∈ (l.timers.filter (·.first ≤ l.time + dtime)).map
        (·.second.position) then none else l.iterators p
      nextTriggerTime := beginTime (l.timers.filter (l.time + dtime < ·.first)) },
    (l.timers.filter (·.first ≤ l.time + dtime)).map (elapsedTimer (l.time + dtime))) := by
  unfold NodeTimerList.step
  dsimp only
  obtain ⟨htake, hdrop⟩ := takeWhile_eq_filter (l.time + dtime) h.sorted
  split_ifs with hearly
  · -- nothing is due
    have hall : ∀ e ∈ l.timers, l.time + dtime < e.first := by
      intro e he
      rcases hearly with hnone | hlt
      · rw [h.next_eq_iff.mp hnone] at he
        cases he
      · exact hlt.trans_le (h.next ▸ beginTime_le h.sorted he)
    have hnone : l.timers.filter (fun e => decide (e.first ≤ l.time + dtime)) = [] := by
      rw [List.filter_eq_nil_iff]
      intro d hd
      simpa using hall d hd
    have hsome : l.timers.filter (fun e => decide (l.time + dtime < e.first)) = l.timers := by
      rw [List.filter_eq_self]
      intro d hd
      simpa using hall d hd
    rw [hnone, hsome, ← h.next]
    simp
  · rw [htake, hdrop]

theorem Inv.step (h : Inv l) (dtime : ℚ) : Inv (l.step dtime).1 := by
  rw [h.step_eq]
  have hmem : ∀ {d : Entry}, d ∈ l.timers.filter (l.time + dtime < ·.first) ↔
      d ∈ l.timers ∧ l.time + dtime < d.first := by simp
  refine ⟨h.sorted.filter _, h.ids.sublist (List.filter_sublist.map _), ?_, fun q m => ?_, rfl, ?_⟩
  · exact fun d hd => h.fresh d (hmem.mp hd).1
  · dsimp only
    constructor
    · intro hit
      split_ifs at hit with hq
      obtain ⟨d, hd, hdpos, rfl⟩ := (h.iterators q m).mp hit
      refine ⟨d, hmem.mpr ⟨hd, not_le.mp fun hle => hq ?_⟩, hdpos, rfl⟩
      exact List.mem_map.mpr ⟨d, List.mem_filter.mpr ⟨hd, by simpa using hle⟩, hdpos⟩
    · rintro ⟨d, hd, hdpos, rfl⟩
      obtain ⟨hd, hlt⟩ := hmem.mp hd
      rw [if_neg, h.iterators]
      · exact ⟨d, hd, hdpos, rfl⟩
      · intro hin
        obtain ⟨e, he, hepos⟩ := List.mem_map.mp hin
        obtain ⟨he, hle⟩ := List.mem_filter.mp he
        have hed := h.eq_of_position he hd (hepos.trans hdpos.symm)
        rw [hed] at hle
        exact absurd hlt (not_lt.mpr (by simpa using hle))
  · exact fun d hd => h.first d (hmem.mp hd).1

/-! ## Going off -/

def pending (l : NodeTimerList) (p : NodePos) : List Entry :=
  l.timers.filter (·.second.position = p)

def Op.Spares (p : NodePos) : Op → Prop
  | .set t => t.position ≠ p
  | .remove q => q ≠ p
  | .clear => False
  | .insert t => t.position ≠ p
  | .step _ => True

/-- `insert` is used where there is no timer, and no timer goes off at the time that stands for
none. -/
def Op.Allowed (l : NodeTimerList) : Op → Prop
  | .set t => l.triggerTime t ≠ -1
  | .remove _ => True
  | .clear => True
  | .insert t => l.iterators t.position = none ∧ l.triggerTime t ≠ -1
  | .step _ => True

/-- What goes off at the position of a timer: nothing until the first step that reaches its time,
the timer in this step, and nothing after it. -/
def goesOffOnce (e : Entry) : ℚ → List Op → List (List NodeTimer)
  | _, [] => []
  | time, .step dtime :: ops =>
    if e.first ≤ time + dtime then [elapsedTimer (time + dtime) e] :: ops.map fun _ => []
    else [] :: goesOffOnce e (time + dtime) ops
  | time, _ :: ops => [] :: goesOffOnce e time ops

def atPosition (p : NodePos) (answers : List (List NodeTimer)) : List (List NodeTimer) :=
  answers.map fun timers => timers.filter (·.position = p)

theorem pending_remove_of_ne (h : Inv l) {q : NodePos} (hq : q ≠ p) :
    pending (l.remove q) p = pending l p := by
  unfold NodeTimerList.remove
  cases hn : l.iterators q with
  | none => rfl
  | some n =>
    obtain ⟨e, he, hpos, rfl, -⟩ := h.find hn
    unfold pending
    rw [List.filter_filter]
    refine List.filter_congr fun d hd => ?_
    by_cases hdp : d.second.position = p
    · have hid : d.id ≠ e.id := fun hid => hq (by rw [← hpos, ← hdp, h.eq_of_id hd he hid])
      simp [hdp, hid]
    · simp [hdp]

theorem filter_emplace_of_ne (h : e.second.position ≠ p) (timers : List Entry) :
    (emplace e timers).filter (·.second.position = p) =
      timers.filter (·.second.position = p) := by
  induction timers with
  | nil => simp [emplace, h]
  | cons c timers ih =>
    unfold emplace
    split_ifs
    · rw [List.filter_cons_of_neg (by simpa using h)]
    · by_cases hc : c.second.position = p
      · rw [List.filter_cons_of_pos (by simpa using hc),
          List.filter_cons_of_pos (by simpa using hc), ih]
      · rw [List.filter_cons_of_neg (by simpa using hc),
          List.filter_cons_of_neg (by simpa using hc), ih]

theorem pending_insert_of_ne (h : t.position ≠ p) : pending (l.insert t) p = pending l p :=
  filter_emplace_of_ne h _

theorem pending_eq_nil_iff (h : Inv l) : pending l p = [] ↔ l.iterators p = none := by
  unfold pending
  rw [List.filter_eq_nil_iff]
  constructor
  · intro hnone
    cases hp : l.iterators p with
    | none => rfl
    | some n =>
      obtain ⟨e, he, hpos, -⟩ := h.find hp
      exact absurd (by simpa using hpos) (hnone e he)
  · intro hnone e he hpos
    have hit := (h.iterators p e.id).mpr ⟨e, he, by simpa using hpos, rfl⟩
    rw [hnone] at hit
    cases hit

theorem pending_insert (h : Inv l) (hp : l.iterators t.position = none) :
    pending (l.insert t) t.position = [l.entry t] := by
  have hperm : (pending (l.insert t) t.position).Perm
      ((l.entry t :: l.timers).filter (·.second.position = t.position)) :=
    (perm_emplace _ _).filter _
  rw [List.filter_cons_of_pos (by simp [entry])] at hperm
  have hnil : l.timers.filter (fun e => decide (e.second.position = t.position)) = [] :=
    (pending_eq_nil_iff h).mpr hp
  rw [hnil] at hperm
  exact List.perm_singleton.mp hperm

theorem iterators_remove (l : NodeTimerList) (p : NodePos) : (l.remove p).iterators p = none := by
  unfold NodeTimerList.remove
  cases hp : l.iterators p with
  | none => exact hp
  | some n => exact Function.update_self ..

theorem time_remove (l : NodeTimerList) (p : NodePos) : (l.remove p).time = l.time := by
  unfold NodeTimerList.remove
  split <;> rfl

theorem Inv.set (h : Inv l) (ht : l.triggerTime t ≠ -1) : Inv (l.set t) := by
  refine (h.remove t.position).insert (iterators_remove l _) ?_
  unfold triggerTime at ht ⊢
  rwa [time_remove]

theorem Inv.next_state {op : Op} {x : NodeTimerList × List NodeTimer} (h : Inv l)
    (hop : op.Allowed l) (hx : timerMachine.step l op = some x) : Inv x.1 := by
  cases hx
  cases op with
  | set t => exact h.set hop
  | remove p => exact h.remove p
  | clear => exact inv_clear l
  | insert t => exact h.insert hop.1 hop.2
  | step dtime => exact h.step dtime

/-- What is left at a position after a step, and what goes off there. -/
theorem pending_step (h : Inv l) (dtime : ℚ) (p : NodePos) :
    pending (l.step dtime).1 p = (pending l p).filter (l.time + dtime < ·.first) ∧
      (l.step dtime).2.filter (·.position = p) =
        ((pending l p).filter (·.first ≤ l.time + dtime)).map (elapsedTimer (l.time + dtime)) := by
  rw [h.step_eq]
  unfold pending
  constructor
  · rw [List.filter_filter, List.filter_filter]
    exact List.filter_congr fun d _ => Bool.and_comm _ _
  · rw [List.filter_map, List.filter_filter, List.filter_filter]
    exact congrArg _ (List.filter_congr fun d _ => Bool.and_comm _ _)

/-- An operation that spares a position and is no step changes nothing there. -/
theorem pending_of_spares {op : Op} {x : NodeTimerList × List NodeTimer} (h : Inv l)
    (hspares : op.Spares p) (hstep : ∀ dtime, op ≠ .step dtime)
    (hx : timerMachine.step l op = some x) :
    pending x.1 p = pending l p ∧ x.1.time = l.time ∧ x.2 = [] := by
  cases hx
  cases op with
  | set t =>
    refine ⟨?_, time_remove l _, rfl⟩
    change pending ((l.remove t.position).insert t) p = pending l p
    rw [pending_insert_of_ne hspares, pending_remove_of_ne h hspares]
  | remove q => exact ⟨pending_remove_of_ne h hspares, time_remove l q, rfl⟩
  | clear => exact hspares.elim
  | insert t => exact ⟨pending_insert_of_ne hspares, rfl, rfl⟩
  | step dtime => exact absurd rfl (hstep dtime)

theorem goesOffOnce_cons {op : Op} (hstep : ∀ dtime, op ≠ .step dtime) (e : Entry) (time : ℚ)
    (ops : List Op) : goesOffOnce e time (op :: ops) = [] :: goesOffOnce e time ops := by
  cases op with
  | step dtime => exact absurd rfl (hstep dtime)
  | _ => rfl

variable {ops : List Op} {r : NodeTimerList × List (List NodeTimer)}

/-- Where there is no timer, nothing goes off. -/
theorem atPosition_of_none (h : Inv l)
    (hops : timerMachine.Allowed (fun l op => op.Allowed l) l ops)
    (hspares : ∀ op ∈ ops, op.Spares p) (hp : pending l p = [])
    (hr : timerMachine.run l ops = some r) : atPosition p r.2 = ops.map fun _ => [] := by
  induction ops generalizing l r with
  | nil =>
    cases hr
    rfl
  | cons op ops ih =>
    obtain ⟨x, hx, hr⟩ := Option.bind_eq_some_iff.mp hr
    obtain ⟨y, hy, rfl⟩ := Option.map_eq_some_iff.mp hr
    rw [List.forall_mem_cons] at hspares
    have hinv := h.next_state hops.1 hx
    have hrest : pending x.1 p = [] ∧ x.2.filter (·.position = p) = [] := by
      by_cases hstep : ∃ dtime, op = .step dtime
      · obtain ⟨dtime, rfl⟩ := hstep
        cases hx
        obtain ⟨hleft, hoff⟩ := pending_step h dtime p
        exact ⟨by rw [hleft, hp]; rfl, by rw [hoff, hp]; rfl⟩
      · obtain ⟨hleft, -, hoff⟩ := pending_of_spares h hspares.1 (not_exists.mp hstep) hx
        exact ⟨hleft.trans hp, by rw [hoff]; rfl⟩
    have hih := ih hinv (hops.next hx) hspares.2 hrest.1 hy
    simp only [atPosition, List.map_cons] at hih ⊢
    rw [hrest.2, hih]

/-- A timer goes off once, in the first step that reaches its time. -/
theorem atPosition_of_pending (h : Inv l)
    (hops : timerMachine.Allowed (fun l op => op.Allowed l) l ops)
    (hspares : ∀ op ∈ ops, op.Spares p) (hp : pending l p = [e])
    (hr : timerMachine.run l ops = some r) : atPosition p r.2 = goesOffOnce e l.time ops := by
  induction ops generalizing l r with
  | nil =>
    cases hr
    rfl
  | cons op ops ih =>
    obtain ⟨x, hx, hr⟩ := Option.bind_eq_some_iff.mp hr
    obtain ⟨y, hy, rfl⟩ := Option.map_eq_some_iff.mp hr
    rw [List.forall_mem_cons] at hspares
    have hinv := h.next_state hops.1 hx
    by_cases hstep : ∃ dtime, op = .step dtime
    · obtain ⟨dtime, rfl⟩ := hstep
      cases hx
      obtain ⟨hleft, hoff⟩ := pending_step h dtime p
      have htime : (l.step dtime).1.time = l.time + dtime := by rw [h.step_eq]
      rw [hp] at hleft hoff
      rw [goesOffOnce]
      split_ifs with hdue
      · have hnone := atPosition_of_none hinv (hops.next rfl) hspares.2
          (hleft.trans (by simp [hdue])) hy
        simp only [atPosition, List.map_cons] at hnone ⊢
        rw [hnone, hoff]
        simp [hdue]
      · have hih := ih hinv (hops.next rfl) hspares.2
          (hleft.trans (by simpa using not_le.mp hdue)) hy
        simp only [atPosition, List.map_cons] at hih ⊢
        rw [hih, hoff, htime]
        simp [hdue]
    · obtain ⟨hleft, htime, hoff⟩ := pending_of_spares h hspares.1 (not_exists.mp hstep) hx
      have hih := ih hinv (hops.next hx) hspares.2 (hleft.trans hp) hy
      rw [goesOffOnce_cons (not_exists.mp hstep), ← htime, ← hih, hoff]
      rfl

/-! ## Runs -/

/-- The iterators are a bijection onto the timers, and the next time is the smallest of theirs. -/
structure Kept (l : NodeTimerList) : Prop where
  onto : ∀ e ∈ l.timers, ∃! p, l.iterators p = some e.id
  timer : ∀ p n, l.iterators p = some n →
    ∃! e, e ∈ l.timers ∧ e.id = n ∧ e.second.position = p
  none : l.timers = [] → l.nextTriggerTime = -1
  smallest : l.timers ≠ [] → (∃ e ∈ l.timers, e.first = l.nextTriggerTime) ∧
    ∀ e ∈ l.timers, l.nextTriggerTime ≤ e.first

theorem Inv.kept (h : Inv l) : Kept l := by
  refine ⟨fun e he => ?_, fun p n hp => ?_, fun hnil => h.next_eq_iff.mpr hnil, fun hne => ?_⟩
  · refine ⟨e.second.position, (h.iterators _ _).mpr ⟨e, he, rfl, rfl⟩, fun q hq => ?_⟩
    obtain ⟨d, hd, rfl, hid⟩ := (h.iterators _ _).mp hq
    rw [h.eq_of_id hd he hid]
  · obtain ⟨e, he, hpos, hid⟩ := (h.iterators p n).mp hp
    refine ⟨e, ⟨he, hid, hpos⟩, ?_⟩
    rintro d ⟨hd, hdid, -⟩
    exact h.eq_of_id hd he (hdid.trans hid.symm)
  · obtain ⟨e, he, hfirst⟩ := beginTime_mem hne
    rw [h.next]
    exact ⟨⟨e, he, hfirst⟩, fun d hd => beginTime_le h.sorted hd⟩

def Op.timer : Op → Option NodeTimer
  | .set t => some t
  | .insert t => some t
  | _ => none

/-- The list is kept in every state of the run, and a timer that is set goes off once, as long as
the operations after it spare its position. -/
structure OnTime (ops : List Op) : Prop where
  kept : ∀ before after r, ops = before ++ after → timerMachine.run {} before = some r → Kept r.1
  once : ∀ before op after t r r', ops = before ++ op :: after → op.timer = some t →
    (∀ op ∈ after, op.Spares t.position) →
    timerMachine.run {} (before ++ [op]) = some r → timerMachine.run r.1 after = some r' →
    ∃ e : Entry, e.first = r.1.time + (t.timeout - t.elapsed) ∧ e.second = t ∧
      atPosition t.position r'.2 = goesOffOnce e r.1.time after

/-- An operation that is possible is done. -/
theorem run_singleton (l : NodeTimerList) (op : Op) :
    ∃ x, timerMachine.step l op = some x ∧ timerMachine.run l [op] = some (x.1, [x.2]) :=
  ⟨_, rfl, rfl⟩

theorem run_append {before : List Op} {r : NodeTimerList × List (List NodeTimer)}
    (hr : timerMachine.run l before = some r) (op : Op) {x : NodeTimerList × List NodeTimer}
    (hx : timerMachine.step r.1 op = some x) :
    ∃ answers, timerMachine.run l (before ++ [op]) = some (x.1, answers) := by
  induction before generalizing l r with
  | nil =>
    cases hr
    exact ⟨[x.2], by simp [Machine.run, hx]⟩
  | cons b before ih =>
    obtain ⟨y, hy, hr⟩ := Option.bind_eq_some_iff.mp hr
    obtain ⟨z, hz, rfl⟩ := Option.map_eq_some_iff.mp hr
    obtain ⟨answers, hanswers⟩ := ih hz hx
    exact ⟨y.2 :: answers, by simp [Machine.run, hy, hanswers]⟩

theorem exists_run (l : NodeTimerList) (ops : List Op) : ∃ r, timerMachine.run l ops = some r := by
  induction ops generalizing l with
  | nil => exact ⟨_, rfl⟩
  | cons op ops ih =>
    obtain ⟨x, hx, -⟩ := run_singleton l op
    obtain ⟨r, hr⟩ := ih x.1
    exact ⟨_, by simp [Machine.run, hx, hr]; rfl⟩

theorem allowed_of_append {before after : List Op}
    (h : timerMachine.Allowed (fun l op => op.Allowed l) l (before ++ after)) :
    timerMachine.Allowed (fun l op => op.Allowed l) l before := by
  induction before generalizing l with
  | nil => trivial
  | cons b before ih =>
    obtain ⟨x, hx, -⟩ := run_singleton l b
    refine ⟨h.1, ?_⟩
    rw [hx]
    exact ih (h.next hx)

theorem inv_run {before : List Op} (hinv : Inv l)
    (h : timerMachine.Allowed (fun l op => op.Allowed l) l before)
    (hr : timerMachine.run l before = some r) : Inv r.1 :=
  (h.run_invariant (Q := fun _ => True) (fun _ _ _ hI hop hx => ⟨hI.next_state hop hx, trivial⟩)
    hinv hr).1

/-- A timer that is set is the only one of its position. -/
theorem pending_of_timer {op : Op} {x : NodeTimerList × List NodeTimer} (h : Inv l)
    (hop : op.Allowed l) (ht : op.timer = some t) (hx : timerMachine.step l op = some x) :
    ∃ e : Entry, e.first = x.1.time + (t.timeout - t.elapsed) ∧ e.second = t ∧
      pending x.1 t.position = [e] := by
  cases hx
  cases op with
  | set t' =>
    cases ht
    refine ⟨(l.remove t.position).entry t, ?_, rfl,
      pending_insert (h.remove _) (iterators_remove l _)⟩
    change (l.remove t.position).time + _ = (l.remove t.position).time + _
    rfl
  | remove p => cases ht
  | clear => cases ht
  | insert t' =>
    cases ht
    exact ⟨l.entry t, rfl, rfl, pending_insert h hop.1⟩
  | step dtime => cases ht

/-- Timers are kept and go off on time in every run in which `insert` is used where there is no
timer and no timer goes off at the time that stands for none. -/
theorem onTime (ops : List Op) (h : timerMachine.Allowed (fun l op => op.Allowed l) {} ops) :
    OnTime ops := by
  constructor
  · rintro before after r rfl hr
    exact (inv_run inv_init (allowed_of_append h) hr).kept
  · rintro before op after t r r' rfl ht hspares hr hr'
    obtain ⟨b, hb⟩ := exists_run {} before
    have hrest := h.append hb
    obtain ⟨x, hx, -⟩ := run_singleton b.1 op
    obtain ⟨answers, hanswers⟩ := run_append hb op hx
    have hinv := inv_run inv_init (allowed_of_append h) hb
    obtain ⟨e, hfirst, hsecond, hpending⟩ := pending_of_timer hinv hrest.1 ht hx
    obtain rfl : r = (x.1, answers) := Option.some.inj (hr.symm.trans hanswers)
    exact ⟨e, hfirst, hsecond, atPosition_of_pending (hinv.next_state hrest.1 hx) (hrest.next hx)
      hspares hpending hr'⟩

def oneSecond : NodeTimer := { timeout := 1, position := (0, 0, 0) }

theorem onTime_oneSecond : OnTime [.set oneSecond, .step 2] :=
  onTime _ ⟨by norm_num [Op.Allowed, triggerTime, oneSecond], trivial, trivial⟩

/-- More of this timer has elapsed than there is of it: it is due at the time that stands for none,
and does not go off. -/
def overdue : NodeTimer := { timeout := 1, elapsed := 2, position := (0, 0, 0) }

theorem not_onTime : ¬∀ ops : List Op, (∀ op ∈ ops, ∀ t, op ≠ .insert t) →
    (∀ op ∈ ops, ∀ dtime, op = .step dtime → 0 ≤ dtime) → OnTime ops := by
  intro h
  have hrun := h [.set overdue, .step 1] (by simp) (by simp)
  obtain ⟨e, hfirst, -, hoff⟩ := hrun.once [] (.set overdue) [.step 1] overdue _ _ rfl rfl
    (by simp [Op.Spares]) rfl rfl
  have hnext : (({} : NodeTimerList).set overdue).nextTriggerTime = -1 := by
    norm_num [NodeTimerList.set, NodeTimerList.remove, NodeTimerList.insert, triggerTime, overdue]
  have hnone : ((({} : NodeTimerList).set overdue).step 1).2 = [] := by
    unfold NodeTimerList.step
    rw [if_pos (.inl hnext)]
  have hdue : e.first ≤ (({} : NodeTimerList).set overdue).time + 1 := by
    change e.first = 0 + ((1 : ℚ) - 2) at hfirst
    change e.first ≤ 0 + 1
    rw [hfirst]
    norm_num
  have hoff : atPosition overdue.position [((({} : NodeTimerList).set overdue).step 1).2] =
      goesOffOnce e (({} : NodeTimerList).set overdue).time [.step 1] := hoff
  rw [hnone, goesOffOnce, if_pos hdue] at hoff
  simp [atPosition] at hoff

end Freeminer.Block.Timers
