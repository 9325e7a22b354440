import Freeminer.Builtin.After

/-! When the jobs of `core.after` run: each once, in the first step after its registration that
reaches its expiry, in order of expiry and then of registration. -/

namespace Freeminer.Builtin

open AfterState

variable {F V M : Type}

/-- The jobs that have had their turn, in order. -/
def turns (events : List (Event F V M)) : List ℕ :=
  events.filterMap fun
    | .ran id _ => some id
    | _ => none

/-- The jobs that wait: a job does from its registration until a step reaches its expiry. -/
def waiting (events : List (Event F V M)) : List (Expiry × ℕ) :=
  events.foldl (fun w ev =>
    match ev with
    | .registered id e _ => w ++ [(e, id)]
    | .globalstep t => later w t
    | _ => w) []

/-- The jobs as they were registered, or cancelled since then. -/
def jobsOf (events : List (Event F V M)) : List (Job F V M) :=
  events.foldl (fun jobs ev =>
    match ev with
    | .registered _ _ job => jobs ++ [job]
    | .cancelled id => jobs.modify id Job.cancel
    | _ => jobs) []

/-- Each job that has run was then as its registration and a cancellation had left it. -/
def Calls (events : List (Event F V M)) : Prop :=
  ∀ before id job since, events = before ++ .ran id job :: since → (jobsOf before)[id]? = some job

section Events

variable {events : List (Event F V M)} {ev : Event F V M}

theorem turns_append (events events' : List (Event F V M)) :
    turns (events ++ events') = turns events ++ turns events' := List.filterMap_append

theorem waiting_append (events : List (Event F V M)) (ev : Event F V M) :
    waiting (events ++ [ev]) =
      match ev with
      | .registered id e _ => waiting events ++ [(e, id)]
      | .globalstep t => later (waiting events) t
      | _ => waiting events := List.foldl_append

theorem jobsOf_append (events : List (Event F V M)) (ev : Event F V M) :
    jobsOf (events ++ [ev]) =
      match ev with
      | .registered _ _ job => jobsOf events ++ [job]
      | .cancelled id => (jobsOf events).modify id Job.cancel
      | _ => jobsOf events := List.foldl_append

theorem Calls.append (h : Calls events)
    (hev : ∀ id job, ev = .ran id job → (jobsOf events)[id]? = some job) :
    Calls (events ++ [ev]) := by
  intro before id job since heq
  rcases List.eq_nil_or_concat' since with rfl | ⟨since, ev', rfl⟩
  · obtain ⟨rfl, hran⟩ := List.append_inj' heq rfl
    exact hev id job (List.cons.inj hran).1
  · rw [← List.cons_append, ← List.append_assoc] at heq
    exact h before id job since (List.append_inj' heq rfl).1

end Events

namespace AfterState

variable {s s' : AfterState F V M} {X : List ℕ}

/-- Between two callbacks, where the expired jobs `X` have not run yet. -/
structure Inv (s : AfterState F V M) (X : List ℕ) : Prop where
  holds : s.Holds (waiting s.events)
  next : s.Next (waiting s.events)
  sorted : (waiting s.events).Pairwise fun p q => p.2 < q.2
  nodup : (turns s.events ++ (X ++ (waiting s.events).map Prod.snd)).Nodup
  lt : ∀ i ∈ turns s.events ++ (X ++ (waiting s.events).map Prod.snd), i < s.jobs.length
  jobs : s.jobs = jobsOf s.events
  calls : Calls s.events

/-- What a call does while the jobs `X` wait for their turn. -/
structure Extends (s : AfterState F V M) (X : List ℕ) (s' : AfterState F V M) : Prop where
  inv : s'.Inv X
  events : ∃ evs, s'.events = s.events ++ evs ∧ turns evs = []
  listNext : ∀ i ∈ turns s.events ++ X, s'.listNext i = s.listNext i

theorem Extends.refl (h : s.Inv X) : s.Extends X s :=
  ⟨h, ⟨[], (List.append_nil _).symm, rfl⟩, fun _ _ => rfl⟩

theorem Inv.after (h : s.Inv X) (delay : Expiry) (modOrigin : M) (func : F) (args : List V) :
    ∃ s', s.after delay modOrigin func args = some s' ∧ s.Extends X s' := by
  let newJob : Job F V M := { modOrigin, func := some func, args }
  let e := ofTime s.time + delay
  let ev : Event F V M := .registered s.jobs.length e newJob
  let s₀ : AfterState F V M := { s with jobs := s.jobs ++ [newJob], events := s.events ++ [ev] }
  have hwaiting : waiting s₀.events = waiting s.events ++ [(e, s.jobs.length)] := waiting_append ..
  have hturns : turns s₀.events = turns s.events := (turns_append ..).trans (List.append_nil _)
  have hperm : (turns s₀.events ++ (X ++ (waiting s₀.events).map Prod.snd)).Perm
      (s.jobs.length :: (turns s.events ++ (X ++ (waiting s.events).map Prod.snd))) := by
    simp [hwaiting, hturns, ← List.append_assoc]
  have hnodup := hperm.nodup_iff.mpr
    (List.nodup_cons.mpr ⟨fun hin => Nat.lt_irrefl _ (h.lt _ hin), h.nodup⟩)
  have hqueue := (List.nodup_append.mp (List.nodup_append.mp hnodup).2.1).2.1
  rw [hwaiting] at hqueue
  obtain ⟨s₁, hadd, hholds, hframe, htime, hnext⟩ :=
    Holds.addJob (s := s₀) (h.holds.frame rfl rfl (fun _ _ => rfl) fun _ _ => rfl) hqueue
  rw [← hwaiting] at hholds
  let s₂ : AfterState F V M := { s₁ with timeNext := min s₁.timeNext e }
  have hevents : s₂.events = s₀.events := hframe.events
  have hjobs : s₂.jobs = s₀.jobs := hframe.jobs
  refine ⟨s₂, congrArg (Option.map _) hadd, ⟨?_, fun t => ?_, ?_, ?_, fun i hi => ?_, ?_, ?_⟩,
    ⟨[ev], hevents, rfl⟩, fun i hi => hnext i fun hw => ?_⟩
  · exact hevents ▸ hholds.frame rfl rfl (fun _ _ => rfl) fun _ _ => rfl
  · rw [hevents, hwaiting]
    refine lt_min_iff.trans (Iff.trans (and_congr_left' (htime ▸ h.next t)) ?_)
    simp [or_imp, forall_and, e]
  · rw [hevents, hwaiting]
    refine List.pairwise_append.mpr ⟨h.sorted, List.pairwise_singleton .., fun p hp q hq => ?_⟩
    rw [List.mem_singleton.mp hq]
    exact h.lt p.2 (by simp [List.mem_map_of_mem hp])
  · exact hevents ▸ hnodup
  · rw [hjobs, List.length_append]
    rw [hevents] at hi
    rcases List.mem_cons.mp (hperm.mem_iff.mp hi) with rfl | hi
    · exact Nat.lt_succ_self _
    · exact Nat.lt_succ_of_lt (h.lt i hi)
  · rw [hjobs, hevents, jobsOf_append, ← h.jobs]
  · exact hevents ▸ h.calls.append nofun
  · have := h.nodup
    rw [← List.append_assoc] at this
    exact (List.nodup_append.mp this).2.2 i hi i hw rfl

theorem Inv.call (h : s.Inv X) (c : Call F V M) : ∃ s', s.call c = some s' ∧ s.Extends X s' := by
  cases c with
  | after delay modOrigin func args => exact h.after delay modOrigin func args
  | cancel id =>
    unfold AfterState.call
    dsimp only
    split_ifs
    · have hwaiting : waiting (s.events ++ [.cancelled id]) = waiting s.events := waiting_append ..
      have hturns : turns (s.events ++ [.cancelled id]) = turns s.events :=
        (turns_append ..).trans (List.append_nil _)
      refine ⟨_, rfl, ⟨?_, hwaiting.symm ▸ h.next, hwaiting.symm ▸ h.sorted, ?_, fun i hi => ?_, ?_,
        h.calls.append nofun⟩, ⟨_, rfl, rfl⟩, fun _ _ => rfl⟩
      · exact hwaiting.symm ▸ h.holds.frame rfl rfl (fun _ _ => rfl) fun _ _ => rfl
      · rw [hwaiting, hturns]
        exact h.nodup
      · rw [hwaiting, hturns] at hi
        exact (h.lt i hi).trans_eq (List.length_modify ..).symm
      · rw [jobsOf_append, ← h.jobs]
    · exact ⟨s, rfl, .refl h⟩

theorem Inv.foldlM_call (h : s.Inv X) (cs : List (Call F V M)) :
    ∃ s', cs.foldlM AfterState.call s = some s' ∧ s.Extends X s' := by
  induction cs generalizing s with
  | nil => exact ⟨s, rfl, .refl h⟩
  | cons c cs ih =>
    obtain ⟨s₁, hcall, h₁, ⟨evs, hevs, hturns⟩, hnext⟩ := h.call c
    obtain ⟨s₂, hrest, hinv, ⟨evs', hevs', hturns'⟩, hnext'⟩ := ih h₁
    refine ⟨s₂, ?_, hinv, ⟨evs ++ evs', ?_, ?_⟩, fun i hi => ?_⟩
    · rw [List.foldlM_cons, hcall]
      exact hrest
    · rw [hevs', hevs, List.append_assoc]
    · rw [turns_append, hturns, hturns', List.append_nil]
    · rw [hnext' i (by rw [hevs, turns_append, hturns, List.append_nil]; exact hi), hnext i hi]

/-- A job whose turn it is runs. -/
theorem Inv.ran {a : ℕ} {job : Job F V M} (h : s.Inv (a :: X)) (hjob : s.jobs[a]? = some job) :
    ({ s with events := s.events ++ [.ran a job] } : AfterState F V M).Inv X := by
  have hwaiting : waiting (s.events ++ [.ran a job]) = waiting s.events := waiting_append ..
  have hturns : turns (s.events ++ [.ran a job]) = turns s.events ++ [a] := turns_append ..
  refine ⟨?_, hwaiting.symm ▸ h.next, hwaiting.symm ▸ h.sorted, ?_, fun i hi => h.lt i ?_,
    h.jobs.trans (jobsOf_append s.events (.ran a job)).symm, h.calls.append fun id job' heq => ?_⟩
  · exact hwaiting.symm ▸ h.holds.frame rfl rfl (fun _ _ => rfl) fun _ _ => rfl
  · simpa [hturns, hwaiting] using h.nodup
  · simpa [hturns, hwaiting] using hi
  · obtain ⟨rfl, rfl⟩ := Event.ran.inj heq
    rw [← h.jobs, hjob]

/-- The loop that runs the callbacks runs all of the list. -/
theorem Inv.runExpired (body : ℕ → List (Call F V M)) {last : Option ℕ} (fuel a : ℕ)
    (h : s.Inv (a :: X)) (hlist : Segment s.listNext (a :: X)) (hlast : (a :: X).getLast? = last)
    (hfuel : X.length < fuel) :
    ∃ s' evs, runExpired body last fuel s a = some s' ∧ s'.Inv [] ∧
      s'.events = s.events ++ evs ∧ turns evs = a :: X := by
  induction fuel generalizing s a X with
  | zero => exact absurd hfuel (Nat.not_lt_zero _)
  | succ fuel ih =>
    have hlt : a < s.jobs.length := h.lt a (by simp)
    have hjob := List.getElem?_eq_getElem hlt
    obtain ⟨s₂, hcalls, h₂, ⟨evs, hevs, hturns⟩, hnext⟩ :=
      (h.ran hjob).foldlM_call (if (s.jobs[a]).func.isSome then body a else [])
    have hdone : ∀ i ∈ a :: X, s₂.listNext i = s.listNext i := by
      intro i hi
      refine hnext i ?_
      rcases List.mem_cons.mp hi with rfl | hi
      · simp [turns]
      · exact List.mem_append_right _ hi
    unfold AfterState.runExpired
    rw [hjob, Option.bind_some]
    dsimp only
    rw [hcalls, Option.bind_some]
    cases X with
    | nil =>
      rw [if_pos (by rw [← hlast]; rfl)]
      refine ⟨s₂, .ran a s.jobs[a] :: evs, rfl, h₂, ?_, congrArg (a :: ·) hturns⟩
      rw [hevs, List.append_assoc]
      rfl
    | cons b X =>
      have hne : some a ≠ last := by
        rw [← hlast, List.getLast?_cons_cons]
        intro heq
        have hin := List.mem_of_getLast? heq.symm
        have := (List.nodup_append.mp h.nodup).2.1
        exact (List.nodup_cons.mp this).1 (List.mem_append_left _ hin)
      rw [if_neg hne, hdone a List.mem_cons_self, hlist.1, Option.bind_some]
      rw [List.getLast?_cons_cons] at hlast
      obtain ⟨s', evs', hrun, hinv, hevs', hturns'⟩ := ih b h₂
        (hlist.2.frame fun i hi => hdone i (List.mem_cons_of_mem a hi)) hlast
        (Nat.lt_of_succ_lt_succ hfuel)
      refine ⟨s', .ran a s.jobs[a] :: (evs ++ evs'), hrun, hinv, ?_, ?_⟩
      · rw [hevs', hevs]
        simp
      · have hboth : turns (evs ++ evs') = b :: X := by
          rw [turns_append, hturns, hturns', List.nil_append]
        exact congrArg (a :: ·) hboth

/-- The jobs that a step runs are those that wait and that it has reached, in order. -/
def RunsDue (s : AfterState F V M) (time : ℚ) (s' : AfterState F V M) : Prop :=
  ∃ (evs : List (Event F V M)) (Y : List (Expiry × ℕ)),
    s'.events = s.events ++ .globalstep time :: evs ∧ turns evs = Y.map Prod.snd ∧
      Y.Pairwise Before ∧ Y.Perm (due (waiting s.events) time)

theorem Inv.globalstep (h : s.Inv []) (dtime : ℚ) (body : ℕ → List (Call F V M)) :
    ∃ s', s.globalstep dtime body = some s' ∧ s.RunsDue (s.time + dtime) s' ∧ s'.Inv [] := by
  let time := s.time + dtime
  let w := waiting s.events
  let s₀ : AfterState F V M := { s with time, events := s.events ++ [.globalstep time] }
  have h₀ : s₀.Holds w := h.holds.frame rfl rfl (fun _ _ => rfl) fun _ _ => rfl
  have hturns : turns s₀.events = turns s.events := (turns_append ..).trans (List.append_nil _)
  have hwaiting : waiting s₀.events = later w time := waiting_append ..
  have hcalls : Calls s₀.events := h.calls.append nofun
  have hlogged : s₀.jobs = jobsOf s₀.events :=
    h.jobs.trans (jobsOf_append s.events (.globalstep time)).symm
  unfold AfterState.globalstep
  dsimp only
  split_ifs with hearly
  · obtain ⟨hlater, hdue⟩ := later_of_lt ((h.next time).mp hearly)
    rw [hlater] at hwaiting
    refine ⟨s₀, rfl, ⟨[], [], rfl, rfl, .nil, .of_eq hdue.symm⟩, hwaiting.symm ▸ h₀,
      hwaiting.symm ▸ h.next, hwaiting.symm ▸ h.sorted, ?_, ?_, hlogged, hcalls⟩
    · rw [hwaiting, hturns]
      exact h.nodup
    · rw [hwaiting, hturns]
      exact h.lt
  · obtain ⟨p, hp, hle⟩ : ∃ p ∈ w, p.1 ≤ ofTime time := by
      by_contra hnone
      push Not at hnone
      exact hearly ((h.next time).mpr hnone)
    obtain ⟨n, hn⟩ : ∃ n, s.expiries.length = n + 1 := by
      obtain ⟨k, h1, hk, -⟩ := Heap.mem_content.mp (h.holds.mem_content.mpr ⟨p.2, hp⟩)
      exact ⟨s.expiries.length - 1, by omega⟩
    obtain ⟨hleast, s₁, first, hremove, hfirst, h₁, hframe, hlen, hnext, hend⟩ :=
      h₀.removeFirstJobs hn
    have hle := (hleast p hp).trans hle
    have hstart : s₁.Removed first (group w (s.expiries.get 1)) (others w (s.expiries.get 1)) := by
      have hperm := (group_others_perm w (s.expiries.get 1)).map Prod.snd
      refine ⟨h₁, (h₀.linked _).frame (fun a _ => congrFun hnext a) fun a _ => congrFun hend a,
        hfirst, hperm.nodup_iff.mpr (List.nodup_append.mp h.nodup).2.1, h.sorted.filter _,
        group_before h.sorted _, group_less hleast⟩
    obtain ⟨s₂, Y', hremoved, h₂, hnext₂, hperm, hframe₂⟩ :=
      hstart.removeExpired (s₁.expiries.length + 1) (Nat.lt_succ_self _)
    have htime : s₁.time = time := hframe.time
    rw [htime, later_others hle] at h₂ hnext₂
    rw [htime] at hperm
    have hdue := (hperm.append_left _).trans (due_others_perm hle w)
    generalize group w (s.expiries.get 1) ++ Y' = Y at h₂ hdue
    have hjobs : s₂.jobs = s₀.jobs := hframe₂.jobs.trans hframe.jobs
    have hevents : s₂.events = s₀.events := hframe₂.events.trans hframe.events
    have hall : (Y.map Prod.snd ++ (later w time).map Prod.snd).Perm (w.map Prod.snd) := by
      rw [← List.map_append]
      exact ((hdue.append_right _).trans (due_later_perm w time)).map Prod.snd
    have hinv : s₂.Inv (Y.map Prod.snd) := by
      refine ⟨?_, ?_, ?_, ?_, ?_, hjobs ▸ hevents ▸ hlogged, hevents ▸ hcalls⟩
      all_goals rw [hevents, hwaiting]
      · exact h₂.holds
      · exact hnext₂
      · exact h₂.sorted
      · rw [hturns]
        exact (hall.append_left _).nodup_iff.mpr h.nodup
      · rw [hturns, hjobs]
        exact fun i hi => h.lt i ((hall.append_left _).mem_iff.mp hi)
    obtain ⟨X, hX⟩ := List.head?_eq_some_iff.mp h₂.head
    have hfuel : X.length < s₂.jobs.length := by
      have hsub : (Y.map Prod.snd).Subperm (List.range s₂.jobs.length) :=
        (List.nodup_append.mp ((List.nodup_append.mp hinv.nodup).2.1)).1.subperm fun i hi =>
          List.mem_range.mpr (hinv.lt i (by simp [hi]))
      have := hsub.length_le
      rw [hX, List.length_range] at this
      exact this
    have hlist := h₂.linked.1
    have hlast := h₂.linked.2 first h₂.head
    rw [hX] at hinv hlist hlast
    obtain ⟨s', evs, hrun, hinv', hevs, hturns'⟩ :=
      hinv.runExpired body s₂.jobs.length first hlist hlast.symm hfuel
    refine ⟨s', ?_, ⟨evs, Y, ?_, hturns'.trans hX.symm, h₂.before, hdue⟩, hinv'⟩
    · rw [hremove, Option.bind_some, hremoved, Option.bind_some, hrun]
    · rw [hevs, hevents]
      exact List.append_assoc ..

theorem inv_init : ({} : AfterState F V M).Inv [] where
  holds := ⟨fun j h1 hle => absurd hle (by dsimp only; omega), fun _ => rfl, fun _ => rfl,
    fun _ => ⟨trivial, nofun⟩⟩
  next t := iff_of_true (ofTime_lt_top t) nofun
  sorted := .nil
  nodup := List.nodup_nil
  lt := nofun
  jobs := rfl
  calls before id job since heq := by simp at heq

theorem inv_run (ops : List (AfterOp F V M)) (h : s.Inv []) :
    ∃ s', ops.foldlM step s = some s' ∧ s'.Inv [] := by
  induction ops generalizing s with
  | nil => exact ⟨s, rfl, h⟩
  | cons op ops ih =>
    obtain ⟨s₁, hstep, h₁⟩ : ∃ s₁, step s op = some s₁ ∧ s₁.Inv [] := by
      cases op with
      | call c =>
        obtain ⟨s₁, hcall, hext⟩ := h.call c
        exact ⟨s₁, hcall, hext.inv⟩
      | globalstep dtime body =>
        obtain ⟨s₁, hstep, -, hinv⟩ := h.globalstep dtime body
        exact ⟨s₁, hstep, hinv⟩
    obtain ⟨s₂, hrun, hinv⟩ := ih h₁
    refine ⟨s₂, ?_, hinv⟩
    rw [List.foldlM_cons, hstep]
    exact hrun

/-- After every run no job has run twice, and each one that has run did so as it was registered,
unless it was cancelled before; the next step runs the jobs that are due, and no job runs outside
of a step. -/
theorem after_run (ops : List (AfterOp F V M)) :
    ∃ s, run ops = some s ∧ (turns s.events).Nodup ∧ Calls s.events ∧
      (∀ dtime body, ∃ s', s.globalstep dtime body = some s' ∧ s.RunsDue (s.time + dtime) s') ∧
      ∀ c, ∃ s' evs, s.call c = some s' ∧ s'.events = s.events ++ evs ∧ turns evs = [] := by
  obtain ⟨s, hrun, h⟩ := inv_run ops inv_init
  refine ⟨s, hrun, (List.nodup_append.mp h.nodup).1, h.calls, fun dtime body => ?_, fun c => ?_⟩
  · obtain ⟨s', hstep, hdue, -⟩ := h.globalstep dtime body
    exact ⟨s', hstep, hdue⟩
  · obtain ⟨s', hcall, -, ⟨evs, hevs, hturns⟩, -⟩ := h.call c
    exact ⟨s', evs, hcall, hevs, hturns⟩

end AfterState

end Freeminer.Builtin
