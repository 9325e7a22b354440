import Mathlib.Algebra.Order.Ring.Rat
import Freeminer.Builtin.Heap

/-! `core.after` (`builtin/common/after.lua`): jobs that wait for a time. Jobs of one expiry are a
linked list, whose first job has a pointer to the last. -/

namespace Freeminer.Builtin

open Function (update)

/-- A number, or minus or plus infinity. -/
abbrev Expiry := WithBot (WithTop ℚ)

def ofTime (t : ℚ) : Expiry := ((t : WithTop ℚ) : WithBot (WithTop ℚ))

theorem ofTime_lt_top (t : ℚ) : ofTime t < ⊤ := WithBot.coe_lt_coe.mpr (WithTop.coe_lt_top t)

variable {F V M : Type}

/-- `dummy_func` is `none`. -/
structure Job (F V M : Type) where
  modOrigin : M
  func : Option F
  args : List V

def Job.cancel (job : Job F V M) : Job F V M := { job with func := none, args := [] }

/-- What happens, as the specification reads it. -/
inductive Event (F V M : Type) where
  | registered (id : ℕ) (expiry : Expiry) (job : Job F V M)
  | cancelled (id : ℕ)
  | globalstep (time : ℚ)
  | ran (id : ℕ) (job : Job F V M)

/-- What a callback may do; a job is known by its number. -/
inductive Call (F V M : Type) where
  | after (delay : Expiry) (modOrigin : M) (func : F) (args : List V)
  | cancel (id : ℕ)

/-- The pointers of the jobs are apart from the rest of them. Nothing reads the events. -/
structure AfterState (F V M : Type) where
  jobs : List (Job F V M) := []
  listNext : ℕ → Option ℕ := fun _ => none
  listEnd : ℕ → Option ℕ := fun _ => none
  jobMap : Expiry → Option ℕ := fun _ => none
  expiries : Heap Expiry := ⟨0, fun _ => ⊤⟩
  time : ℚ := 0
  timeNext : Expiry := ⊤
  events : List (Event F V M) := []

namespace AfterState

variable (s : AfterState F V M)

def listInit (first : ℕ) : AfterState F V M :=
  { s with listEnd := update s.listEnd first (some first) }

/-- Nothing where `list_end` is nil. -/
def listAppend (first append : ℕ) : Option (AfterState F V M) :=
  (s.listEnd first).map fun last =>
    { s with
      listNext := update s.listNext last (some append)
      listEnd := update s.listEnd first (some append) }

def listAppendList (first firstAppend : ℕ) : Option (AfterState F V M) :=
  (s.listEnd first).map fun last =>
    { s with
      listNext := update s.listNext last (some firstAppend)
      listEnd := update s.listEnd first (s.listEnd firstAppend) }

def addJob (expiry : Expiry) (job : ℕ) : Option (AfterState F V M) :=
  match s.jobMap expiry with
  | some list => s.listAppend list job
  | none =>
    some { s.listInit job with
      jobMap := update s.jobMap expiry (some job)
      expiries := s.expiries.heapPush expiry }

/-- Nothing where there is no job. -/
def removeFirstJobs : Option (AfterState F V M × ℕ) :=
  if s.expiries.length = 0 then none
  else
    let removed := s.expiries.heapPop
    (s.jobMap removed.2).map fun first =>
      ({ s with expiries := removed.1, jobMap := update s.jobMap removed.2 none }, first)

/-- `expiries[1] or math.huge` -/
def firstExpiry : Expiry := if s.expiries.length = 0 then ⊤ else s.expiries.get 1

/-- The loop that removes the other expired jobs; `fuel` is more than there are expiries. -/
def removeExpired (expired : ℕ) : ℕ → AfterState F V M → Option (AfterState F V M)
  | 0, _ => none
  | fuel + 1, s =>
    let s := { s with timeNext := s.firstExpiry }
    if s.timeNext > ofTime s.time then some s
    else s.removeFirstJobs.bind fun r =>
      (r.1.listAppendList expired r.2).bind (removeExpired expired fuel)

/-- `core.after` -/
def after (delay : Expiry) (modOrigin : M) (func : F) (args : List V) :
    Option (AfterState F V M) :=
  let newJob : Job F V M := { modOrigin, func := some func, args }
  let expiry := ofTime s.time + delay
  let registered : Event F V M := .registered s.jobs.length expiry newJob
  let s' := { s with jobs := s.jobs ++ [newJob], events := s.events ++ [registered] }
  (s'.addJob expiry s.jobs.length).map fun s => { s with timeNext := min s.timeNext expiry }

def call (s : AfterState F V M) : Call F V M → Option (AfterState F V M)
  | .after delay modOrigin func args => s.after delay modOrigin func args
  | .cancel id =>
    if id < s.jobs.length then
      some { s with jobs := s.jobs.modify id Job.cancel, events := s.events ++ [.cancelled id] }
    else some s

/-- The loop that runs the callbacks, of which `body` says what each does; `dummy_func` does
nothing. -/
def runExpired (body : ℕ → List (Call F V M)) (lastExpired : Option ℕ) :
    ℕ → AfterState F V M → ℕ → Option (AfterState F V M)
  | 0, _, _ => none
  | fuel + 1, s, expired =>
    (s.jobs[expired]?).bind fun job =>
      let s := { s with events := s.events ++ [.ran expired job] }
      ((if job.func.isSome then body expired else []).foldlM call s).bind fun s =>
        if some expired = lastExpired then some s
        else (s.listNext expired).bind (runExpired body lastExpired fuel s)

def globalstep (dtime : ℚ) (body : ℕ → List (Call F V M)) : Option (AfterState F V M) :=
  let time := s.time + dtime
  let s := { s with time, events := s.events ++ [.globalstep time] }
  if ofTime s.time < s.timeNext then some s
  else s.removeFirstJobs.bind fun r =>
    (removeExpired r.2 (r.1.expiries.length + 1) r.1).bind fun s =>
      runExpired body (s.listEnd r.2) s.jobs.length s r.2

end AfterState

/-- What is done from outside of the callbacks. -/
inductive AfterOp (F V M : Type) where
  | call (c : Call F V M)
  | globalstep (dtime : ℚ) (body : ℕ → List (Call F V M))

namespace AfterState

def step (s : AfterState F V M) : AfterOp F V M → Option (AfterState F V M)
  | .call c => s.call c
  | .globalstep dtime body => s.globalstep dtime body

def run (ops : List (AfterOp F V M)) : Option (AfterState F V M) := ops.foldlM step {}

end AfterState

/-! ### Linked lists -/

def Segment (next : ℕ → Option ℕ) : List ℕ → Prop
  | a :: b :: l => next a = some b ∧ Segment next (b :: l)
  | _ => True

section Segment

variable {next next' : ℕ → Option ℕ} {l m : List ℕ} {last other : ℕ}

theorem Segment.tail {a : ℕ} (h : Segment next (a :: l)) : Segment next l := by
  cases l with
  | nil => trivial
  | cons b l => exact h.2

theorem Segment.frame (h : Segment next l) (hn : ∀ a ∈ l, next' a = next a) :
    Segment next' l := by
  induction l with
  | nil => trivial
  | cons a l ih =>
    have hrest := ih h.tail fun b hb => hn b (List.mem_cons_of_mem a hb)
    cases l with
    | nil => trivial
    | cons b l => exact ⟨(hn a List.mem_cons_self).trans h.1, hrest⟩

theorem Segment.splice (hl : Segment next l) (hm : Segment next m) (hnodup : (l ++ m).Nodup)
    (hlast : l.getLast? = some last) (hother : m.head? = some other) :
    Segment (update next last (some other)) (l ++ m) := by
  induction l with
  | nil => cases hlast
  | cons a l ih =>
    obtain ⟨ha, hrest⟩ := List.nodup_cons.mp hnodup
    cases l with
    | nil =>
      obtain rfl : a = last := Option.some.inj hlast
      obtain ⟨m, rfl⟩ := List.head?_eq_some_iff.mp hother
      refine ⟨Function.update_self .., hm.frame fun b hb => Function.update_of_ne ?_ ..⟩
      exact fun heq => ha (heq ▸ hb)
    | cons b l =>
      rw [List.getLast?_cons_cons] at hlast
      refine ⟨?_, ih hl.2 hrest hlast⟩
      rw [Function.update_of_ne, hl.1]
      rintro rfl
      exact ha (List.mem_append_left m (List.mem_of_getLast? hlast))

end Segment

namespace AfterState

variable {s s' : AfterState F V M} {w : List (Expiry × ℕ)} {e : Expiry} {id : ℕ}

/-- The jobs of a list are linked, and the first one knows the last. -/
def Linked (s : AfterState F V M) (l : List ℕ) : Prop :=
  Segment s.listNext l ∧ ∀ first, l.head? = some first → s.listEnd first = l.getLast?

theorem Linked.frame {l : List ℕ} (h : s.Linked l) (hn : ∀ a ∈ l, s'.listNext a = s.listNext a)
    (he : ∀ a ∈ l, s'.listEnd a = s.listEnd a) : s'.Linked l :=
  ⟨h.1.frame hn, fun first hf => (he first (List.mem_of_head? hf)).trans (h.2 first hf)⟩

theorem Linked.splice {l m : List ℕ} {first last other : ℕ} (hl : s.Linked l)
    (hm : Segment s.listNext m) (hnodup : (l ++ m).Nodup) (hfirst : l.head? = some first)
    (hlast : l.getLast? = some last) (hother : m.head? = some other)
    (hn : s'.listNext = update s.listNext last (some other))
    (he : s'.listEnd = update s.listEnd first m.getLast?) : s'.Linked (l ++ m) := by
  refine ⟨hn ▸ hl.1.splice hm hnodup hlast hother, fun f hf => ?_⟩
  rw [List.head?_append, hfirst] at hf
  obtain rfl : first = f := Option.some.inj hf
  obtain ⟨m, rfl⟩ := List.head?_eq_some_iff.mp hother
  rw [he, Function.update_self, List.getLast?_append, List.getLast?_cons]
  rfl

/-! ### The jobs that wait -/

/-- Of the jobs that wait, those of an expiry. -/
def group (w : List (Expiry × ℕ)) (e : Expiry) : List (Expiry × ℕ) := w.filter fun p => p.1 = e

def others (w : List (Expiry × ℕ)) (e : Expiry) : List (Expiry × ℕ) := w.filter fun p => p.1 ≠ e

def ids (w : List (Expiry × ℕ)) (e : Expiry) : List ℕ := (group w e).map Prod.snd

theorem mem_ids : id ∈ ids w e ↔ (e, id) ∈ w := by
  simp [ids, group]

theorem mem_of_mem_ids (h : id ∈ ids w e) : id ∈ w.map Prod.snd :=
  List.mem_map_of_mem (mem_ids.mp h)

theorem ids_append (w w' : List (Expiry × ℕ)) (e : Expiry) :
    ids (w ++ w') e = ids w e ++ ids w' e := by
  simp [ids, group]

theorem ids_others (w : List (Expiry × ℕ)) (e e' : Expiry) :
    ids (others w e) e' = if e' = e then [] else ids w e' := by
  unfold ids group others
  rw [List.filter_filter]
  split_ifs with he
  · simp [he]
  · congr 1
    refine List.filter_congr fun p _ => ?_
    grind

/-- The heap has each expiry of the jobs that wait once, and the map has their lists. -/
structure Holds (s : AfterState F V M) (w : List (Expiry × ℕ)) : Prop where
  ordered : s.expiries.Ordered
  count : ∀ e, s.expiries.content.count e = if ids w e = [] then 0 else 1
  map : ∀ e, s.jobMap e = (ids w e).head?
  linked : ∀ e, s.Linked (ids w e)

theorem Holds.mem_content (h : s.Holds w) : e ∈ s.expiries.content ↔ ∃ id, (e, id) ∈ w := by
  rw [← Multiset.count_pos, h.count]
  split_ifs with hids
  · simp [← mem_ids, hids]
  · obtain ⟨id, hid⟩ := List.exists_mem_of_ne_nil _ hids
    exact iff_of_true Nat.one_pos ⟨id, mem_ids.mp hid⟩

theorem Holds.frame (h : s.Holds w) (hx : s'.expiries = s.expiries) (hm : s'.jobMap = s.jobMap)
    (hn : ∀ a ∈ w.map Prod.snd, s'.listNext a = s.listNext a)
    (he : ∀ a ∈ w.map Prod.snd, s'.listEnd a = s.listEnd a) : s'.Holds w where
  ordered := hx ▸ h.ordered
  count := hx ▸ h.count
  map := hm ▸ h.map
  linked e := (h.linked e).frame (fun a ha => hn a (mem_of_mem_ids ha))
    fun a ha => he a (mem_of_mem_ids ha)

/-- Lists of different expiries have no job in common. -/
theorem ids_disjoint (hnodup : (w.map Prod.snd).Nodup) {e' : Expiry} (hne : e' ≠ e)
    (hid : id ∈ ids w e) : id ∉ ids w e' := by
  intro hid'
  have := List.inj_on_of_nodup_map hnodup (mem_ids.mp hid) (mem_ids.mp hid') rfl
  exact hne (congrArg Prod.fst this).symm

/-- What an operation on the queue leaves as it is. -/
structure Frame (s s' : AfterState F V M) : Prop where
  jobs : s'.jobs = s.jobs
  time : s'.time = s.time
  events : s'.events = s.events

theorem Holds.addJob (h : s.Holds w) (hnodup : ((w ++ [(e, id)]).map Prod.snd).Nodup) :
    ∃ s', s.addJob e id = some s' ∧ s'.Holds (w ++ [(e, id)]) ∧ s.Frame s' ∧
      s'.timeNext = s.timeNext ∧ ∀ i ∉ w.map Prod.snd, s'.listNext i = s.listNext i := by
  rw [List.map_append, List.nodup_append_comm] at hnodup
  obtain ⟨hnew, hnodup⟩ := List.nodup_cons.mp hnodup
  have hids : ∀ e', ids (w ++ [(e, id)]) e' = ids w e' ++ if e = e' then [id] else [] := by
    intro e'
    rw [ids_append]
    by_cases he : e = e' <;> simp [ids, group, he]
  unfold AfterState.addJob
  rw [h.map]
  cases hlist : (ids w e).head? with
  | some first =>
    obtain ⟨l, hl⟩ := List.head?_eq_some_iff.mp hlist
    obtain ⟨last, hlast⟩ : ∃ last, (ids w e).getLast? = some last := by
      rw [hl, List.getLast?_cons]
      exact ⟨_, rfl⟩
    have hin := List.mem_of_getLast? hlast
    have hin' := List.mem_of_head? hlist
    refine ⟨_, congrArg (Option.map _) (((h.linked e).2 first hlist).trans hlast),
      ⟨h.ordered, fun e' => ?_, fun e' => ?_, fun e' => ?_⟩, ⟨rfl, rfl, rfl⟩, rfl, fun i hi => ?_⟩
    · rw [h.count, hids]
      split_ifs <;> simp_all
    · rw [h.map, hids]
      split_ifs with he
      · rw [← he, List.head?_append, hlist]
        rfl
      · rw [List.append_nil]
    · rw [hids]
      split_ifs with he
      · subst he
        refine (h.linked e).splice (m := [id]) trivial ?_ hlist hlast rfl rfl rfl
        refine List.nodup_append_comm.mp (List.nodup_cons.mpr ⟨?_, ?_⟩)
        · exact fun hmem => hnew (mem_of_mem_ids hmem)
        · exact hnodup.sublist (List.filter_sublist.map _)
      · rw [List.append_nil]
        refine (h.linked e').frame (fun a ha => Function.update_of_ne ?_ ..)
          fun a ha => Function.update_of_ne ?_ ..
        · rintro rfl
          exact ids_disjoint hnodup (Ne.symm he) hin ha
        · rintro rfl
          exact ids_disjoint hnodup (Ne.symm he) hin' ha
    · refine Function.update_of_ne ?_ ..
      rintro rfl
      exact hi (mem_of_mem_ids hin)
  | none =>
    have hnil := List.head?_eq_none_iff.mp hlist
    obtain ⟨hordered, hcontent⟩ := Heap.heapPush_spec h.ordered e
    refine ⟨_, rfl, ⟨hordered, fun e' => ?_, fun e' => ?_, fun e' => ?_⟩, ⟨rfl, rfl, rfl⟩, rfl,
      fun _ _ => rfl⟩
    · rw [hcontent, Multiset.count_cons, h.count, hids]
      by_cases he : e = e'
      · simp [← he, hnil]
      · simp [he, Ne.symm he]
    · rw [hids]
      dsimp only
      by_cases he : e = e'
      · simp [← he, hnil]
      · simp [he, h.map, Function.update_of_ne (Ne.symm he)]
    · rw [hids]
      by_cases he : e = e'
      · rw [← he, hnil, if_pos rfl]
        refine ⟨trivial, fun f hf => ?_⟩
        obtain rfl : id = f := Option.some.inj hf
        exact Function.update_self ..
      · rw [if_neg he, List.append_nil]
        refine (h.linked e').frame (fun _ _ => rfl) fun a ha => Function.update_of_ne ?_ ..
        rintro rfl
        exact hnew (mem_of_mem_ids ha)

/-- The jobs of the least expiry leave. -/
theorem Holds.removeFirstJobs (h : s.Holds w) {n : ℕ} (hn : s.expiries.length = n + 1) :
    (∀ p ∈ w, s.expiries.get 1 ≤ p.1) ∧
    ∃ s' first, s.removeFirstJobs = some (s', first) ∧
      (ids w (s.expiries.get 1)).head? = some first ∧
      s'.Holds (others w (s.expiries.get 1)) ∧ s.Frame s' ∧
      s'.expiries.length = n ∧ s'.listNext = s.listNext ∧ s'.listEnd = s.listEnd := by
  obtain ⟨hordered, hcontent⟩ := Heap.heapPop_spec h.ordered (by omega)
  have hroot := h.mem_content.mp (hcontent ▸ Multiset.mem_cons_self _ _)
  refine ⟨fun p hp => h.ordered.root_le (h.mem_content.mpr ⟨p.2, hp⟩), ?_⟩
  generalize he : s.expiries.get 1 = e at hcontent hroot ⊢
  obtain ⟨id, hid⟩ := hroot
  obtain ⟨first, hfirst⟩ : ∃ first, (ids w e).head? = some first :=
    Option.isSome_iff_exists.mp (by simpa using List.ne_nil_of_mem (mem_ids.mpr hid))
  refine ⟨{ s with
      expiries := s.expiries.heapPop.1
      jobMap := update s.jobMap s.expiries.heapPop.2 none }, first, ?_, hfirst,
    ⟨hordered, fun e' => ?_, fun e' => ?_, fun e' => ?_⟩, ⟨rfl, rfl, rfl⟩, ?_, rfl, rfl⟩
  · rw [AfterState.removeFirstJobs, if_neg (by omega)]
    exact congrArg (Option.map _) ((h.map _).trans (he.symm ▸ hfirst))
  · have hcount := h.count e'
    rw [hcontent, Multiset.count_cons] at hcount
    rw [ids_others]
    split_ifs at hcount ⊢ <;> simp_all
  · rw [ids_others]
    change update s.jobMap (s.expiries.get 1) none e' = _
    rw [he, Function.update_apply, h.map]
    split_ifs <;> rfl
  · rw [ids_others]
    split_ifs
    · exact ⟨trivial, fun f hf => by cases hf⟩
    · exact h.linked e'
  · exact congrArg Nat.pred hn

/-- `time_next` is the least expiry, as far as times tell. -/
def Next (s : AfterState F V M) (w : List (Expiry × ℕ)) : Prop :=
  ∀ t, ofTime t < s.timeNext ↔ ∀ p ∈ w, ofTime t < p.1

theorem Holds.lt_firstExpiry (h : s.Holds w) (t : ℚ) :
    ofTime t < s.firstExpiry ↔ ∀ p ∈ w, ofTime t < p.1 := by
  unfold firstExpiry
  cases hn : s.expiries.length with
  | zero =>
    refine iff_of_true (ofTime_lt_top t) fun p hp => ?_
    obtain ⟨k, h1, hle, -⟩ := Heap.mem_content.mp (h.mem_content.mpr ⟨p.2, hp⟩)
    omega
  | succ n =>
    rw [if_neg n.succ_ne_zero]
    refine ⟨fun hlt p hp => hlt.trans_le ((h.removeFirstJobs hn).1 p hp), fun hall => ?_⟩
    obtain ⟨id, hid⟩ := h.mem_content.mp (Heap.mem_content.mpr ⟨1, le_rfl, by omega, rfl⟩)
    exact hall _ hid

/-- The order in which jobs run. -/
def Before (p q : Expiry × ℕ) : Prop := p.1 < q.1 ∨ p.1 = q.1 ∧ p.2 < q.2

theorem group_others_perm (w : List (Expiry × ℕ)) (e : Expiry) :
    (group w e ++ others w e).Perm w := by
  simpa [group, others] using List.filter_append_perm (fun p => decide (p.1 = e)) w

theorem group_before (h : w.Pairwise fun p q => p.2 < q.2) (e : Expiry) :
    (group w e).Pairwise Before := by
  refine (h.filter _).imp_of_mem fun {p q} hp hq hlt => Or.inr ⟨?_, hlt⟩
  exact (of_decide_eq_true (List.mem_filter.mp hp).2).trans
    (of_decide_eq_true (List.mem_filter.mp hq).2).symm

theorem group_less (hleast : ∀ p ∈ w, e ≤ p.1) : ∀ y ∈ group w e, ∀ p ∈ others w e, y.1 < p.1 := by
  intro y hy p hp
  obtain ⟨hp, hne⟩ := List.mem_filter.mp hp
  rw [of_decide_eq_true (List.mem_filter.mp hy).2]
  exact lt_of_le_of_ne (hleast p hp) (Ne.symm (of_decide_eq_true hne))

/-- The jobs that time `t` has reached, and the other ones. -/
def due (w : List (Expiry × ℕ)) (t : ℚ) : List (Expiry × ℕ) := w.filter fun p => p.1 ≤ ofTime t

def later (w : List (Expiry × ℕ)) (t : ℚ) : List (Expiry × ℕ) := w.filter fun p => ofTime t < p.1

theorem due_later_perm (w : List (Expiry × ℕ)) (t : ℚ) : (due w t ++ later w t).Perm w := by
  refine List.Perm.trans (List.Perm.of_eq ?_)
    (List.filter_append_perm (fun p => decide (p.1 ≤ ofTime t)) w)
  congr 1
  exact List.filter_congr fun p _ => by grind

theorem later_of_lt {t : ℚ} (h : ∀ p ∈ w, ofTime t < p.1) : later w t = w ∧ due w t = [] :=
  ⟨List.filter_eq_self.mpr fun p hp => decide_eq_true (h p hp),
    List.filter_eq_nil_iff.mpr fun p hp hle =>
      absurd (of_decide_eq_true hle) (not_le.mpr (h p hp))⟩

theorem due_others_perm {t : ℚ} (hle : e ≤ ofTime t) (w : List (Expiry × ℕ)) :
    (group w e ++ due (others w e) t).Perm (due w t) := by
  refine List.Perm.trans (List.Perm.of_eq ?_) (group_others_perm (due w t) e)
  unfold group due others
  rw [List.filter_filter, List.filter_filter, List.filter_filter]
  congr 1
  · exact List.filter_congr fun p _ => by grind
  · exact List.filter_congr fun p _ => by grind

theorem later_others {t : ℚ} (hle : e ≤ ofTime t) (w : List (Expiry × ℕ)) :
    later (others w e) t = later w t := by
  unfold later others
  rw [List.filter_filter]
  exact List.filter_congr fun p _ => by grind

/-- The jobs `Y` have been removed, in the order in which they run, and are a list from `first`. -/
structure Removed (s : AfterState F V M) (first : ℕ) (Y w : List (Expiry × ℕ)) : Prop where
  holds : s.Holds w
  linked : s.Linked (Y.map Prod.snd)
  head : (Y.map Prod.snd).head? = some first
  nodup : ((Y ++ w).map Prod.snd).Nodup
  sorted : w.Pairwise fun p q => p.2 < q.2
  before : Y.Pairwise Before
  less : ∀ y ∈ Y, ∀ p ∈ w, y.1 < p.1

variable {first other : ℕ} {Y : List (Expiry × ℕ)}

theorem Removed.listAppendList (h : s.Removed first Y w) (hleast : ∀ p ∈ w, e ≤ p.1)
    (hother : (ids w e).head? = some other) (h' : s'.Holds (others w e))
    (hn : s'.listNext = s.listNext) (he : s'.listEnd = s.listEnd) :
    ∃ s₂, s'.listAppendList first other = some s₂ ∧
      s₂.Removed first (Y ++ group w e) (others w e) ∧ s'.Frame s₂ ∧
      s₂.expiries = s'.expiries := by
  obtain ⟨last, hlast⟩ : ∃ last, (Y.map Prod.snd).getLast? = some last := by
    obtain ⟨l, hl⟩ := List.head?_eq_some_iff.mp h.head
    rw [hl, List.getLast?_cons]
    exact ⟨_, rfl⟩
  have hnodup := (((group_others_perm w e).append_left Y).map Prod.snd).nodup_iff.mpr h.nodup
  rw [← List.append_assoc] at hnodup
  have happart : ∀ i ∈ Y.map Prod.snd, ∀ a ∈ (others w e).map Prod.snd, a ≠ i := by
    rintro i hi a ha rfl
    rw [List.map_append, List.map_append, List.append_assoc] at hnodup
    exact (List.nodup_append.mp hnodup).2.2 a hi a (List.mem_append_right _ ha) rfl
  refine ⟨_, congrArg (Option.map _) (((congrFun he first).trans (h.linked.2 first h.head)).trans
    hlast), ⟨h'.frame rfl rfl ?_ ?_, ?_, ?_, hnodup, h.sorted.filter _, ?_, ?_⟩, ⟨rfl, rfl, rfl⟩,
    rfl⟩
  · exact fun a ha => Function.update_of_ne (happart last (List.mem_of_getLast? hlast) a ha) ..
  · exact fun a ha => Function.update_of_ne (happart first (List.mem_of_head? h.head) a ha) ..
  · rw [List.map_append] at hnodup ⊢
    have hboth := (List.nodup_append.mp hnodup).1
    rw [List.map_append] at hboth
    have hend : s'.listEnd other = (ids w e).getLast? :=
      (congrFun he other).trans ((h.holds.linked e).2 other hother)
    refine h.linked.splice (h.holds.linked e).1 hboth h.head hlast hother ?_ ?_
    · rw [← hn]
    · rw [← he, ← ids, ← hend]
  · rw [List.map_append, List.head?_append, h.head, Option.some_or]
  · refine List.pairwise_append.mpr ⟨h.before, group_before h.sorted e, fun y hy p hp => Or.inl ?_⟩
    exact h.less y hy p (List.mem_filter.mp hp).1
  · intro y hy p hp
    rcases List.mem_append.mp hy with hy | hy
    · exact h.less y hy p (List.mem_filter.mp hp).1
    · exact group_less hleast y hy p hp

theorem Removed.removeExpired (fuel : ℕ) (h : s.Removed first Y w)
    (hfuel : s.expiries.length < fuel) :
    ∃ s' Y', removeExpired first fuel s = some s' ∧
      s'.Removed first (Y ++ Y') (later w s.time) ∧ s'.Next (later w s.time) ∧
      Y'.Perm (due w s.time) ∧ s.Frame s' := by
  induction fuel generalizing s w Y with
  | zero => exact absurd hfuel (Nat.not_lt_zero _)
  | succ fuel ih =>
    unfold AfterState.removeExpired
    dsimp only
    have hholds : ({ s with timeNext := s.firstExpiry } : AfterState F V M).Holds w :=
      h.holds.frame rfl rfl (fun _ _ => rfl) fun _ _ => rfl
    split_ifs with hstop
    · obtain ⟨hkeep, hnone⟩ := later_of_lt ((h.holds.lt_firstExpiry s.time).mp hstop)
      rw [hkeep, hnone]
      refine ⟨_, [], rfl, ?_, h.holds.lt_firstExpiry, .refl _, ⟨rfl, rfl, rfl⟩⟩
      rw [List.append_nil]
      exact ⟨hholds, h.linked, h.head, h.nodup, h.sorted, h.before, h.less⟩
    · obtain ⟨n, hn⟩ : ∃ n, s.expiries.length = n + 1 := by
        refine Nat.exists_eq_succ_of_ne_zero fun h0 => hstop ?_
        rw [firstExpiry, if_pos h0]
        exact ofTime_lt_top _
      have hle : s.expiries.get 1 ≤ ofTime s.time := by
        rw [firstExpiry, if_neg (by omega)] at hstop
        exact not_lt.mp hstop
      obtain ⟨hleast, s₁, other, hremove, hother, h₁, hframe, hlen, hnext, hend⟩ :=
        hholds.removeFirstJobs hn
      obtain ⟨s₂, happend, h₂, hframe₂, hexpiries⟩ :=
        h.listAppendList hleast hother h₁ hnext hend
      obtain ⟨s', Y', hrun, h', hnext', hperm, hframe'⟩ := ih h₂ (by rw [hexpiries]; omega)
      have htime : s₂.time = s.time := hframe₂.time.trans hframe.time
      rw [htime, later_others hle, List.append_assoc] at h'
      rw [htime, later_others hle] at hnext'
      rw [htime] at hperm
      refine ⟨s', _, ?_, h', hnext', (hperm.append_left _).trans (due_others_perm hle w), ?_⟩
      · rw [hremove, Option.bind_some, happend, Option.bind_some, hrun]
      · exact ⟨hframe'.jobs.trans (hframe₂.jobs.trans hframe.jobs), hframe'.time.trans htime,
          hframe'.events.trans (hframe₂.events.trans hframe.events)⟩

end AfterState

end Freeminer.Builtin
