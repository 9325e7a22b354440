import Mathlib.Data.List.Count
import Freeminer.Lib.Runs

/-! The recursive locks of `threading/lock.cpp`, with each call on the mutex and each access to
`thread_id` as a step of its own. Threads nest their guards: the last one taken is released first. -/

namespace Freeminer.Threading

open Lib

inductive Mode where
  | shared
  | unique
  deriving DecidableEq

/-- `locker<>`, where a shared lock is a unique one, or `shared_locker`. -/
inductive LockerKind where
  | locker
  | shared_locker
  deriving DecidableEq

def LockerKind.mode : LockerKind → Mode → Mode
  | .locker, _ => .unique
  | .shared_locker, m => m

/-- `lock_unique`, `lock_shared` and so on; those with `_rec` are recursive. -/
structure LockCall where
  mode : Mode
  recursive : Bool
  try_lock : Bool
  deriving DecidableEq

/-- What a guard got: the mutex, nothing as the thread has it already, or nothing. -/
inductive GuardState where
  | held
  | nested
  | failed
  deriving DecidableEq

structure Guard where
  call : LockCall
  state : GuardState
  deriving DecidableEq

/-- Where a thread is between two steps: in the constructor of a guard or in its `unlock`. -/
inductive Phase where
  | idle
  | comparing (call : LockCall)
  | locking (call : LockCall)
  | storing (call : LockCall)
  | unlocking (call : LockCall)
  deriving DecidableEq

/-- A thread with its guards, the innermost first. -/
structure ThreadState where
  guards : List Guard := []
  phase : Phase := .idle

variable {τ : Type} [DecidableEq τ]

/-- `std::mutex` and `std::shared_mutex`: who locked it, with a reader for each shared lock. -/
structure Mutex (τ : Type) where
  owner : Option τ := none
  readers : List τ := []

namespace Mutex

def lock (m : Mutex τ) (t : τ) : Mode → Option (Mutex τ)
  | .unique => if m.owner = none ∧ m.readers = [] then some { m with owner := some t } else none
  | .shared => if m.owner = none then some { m with readers := t :: m.readers } else none

def unlock (m : Mutex τ) (t : τ) : Mode → Mutex τ
  | .unique => { m with owner := none }
  | .shared => { m with readers := m.readers.erase t }

end Mutex

structure Locker (τ : Type) where
  mtx : Mutex τ := {}
  thread_id : UInt64 := 0
  threads : τ → ThreadState := fun _ => {}

namespace Locker

def setThread (s : Locker τ) (t : τ) (th : ThreadState) : Locker τ :=
  { s with threads := Function.update s.threads t th }

def setPhase (s : Locker τ) (t : τ) (phase : Phase) : Locker τ :=
  s.setThread t { s.threads t with phase }

def pushGuard (s : Locker τ) (t : τ) (call : LockCall) (state : GuardState) : Locker τ :=
  s.setThread t { guards := { call, state } :: (s.threads t).guards, phase := .idle }

end Locker

inductive LockOp (τ : Type) where
  | call (t : τ) (call : LockCall)
  | compare (t : τ)
  | lock (t : τ)
  | fail (t : τ)
  | store (t : τ)
  | release (t : τ)
  | unlock (t : τ)

namespace Locker

variable (kind : LockerKind) (hash : τ → UInt64)

/-- `hash` is `std::hash` of a thread's id. -/
def step (s : Locker τ) : LockOp τ → Option (Locker τ)
  | .call t call =>
    match (s.threads t).phase with
    | .idle => some (s.setPhase t (if call.recursive then .comparing call else .locking call))
    | _ => none
  | .compare t =>
    match (s.threads t).phase with
    | .comparing call =>
      if hash t ≠ s.thread_id then some (s.setPhase t (.locking call))
      else some (s.pushGuard t call .nested)
    | _ => none
  | .lock t =>
    match (s.threads t).phase with
    | .locking call =>
      (s.mtx.lock t (kind.mode call.mode)).map fun mtx =>
        if call.recursive then { s with mtx }.setPhase t (.storing call)
        else { s with mtx }.pushGuard t call .held
    | _ => none
  | .fail t =>
    match (s.threads t).phase with
    | .locking call => if call.try_lock then some (s.pushGuard t call .failed) else none
    | _ => none
  | .store t =>
    match (s.threads t).phase with
    | .storing call => some ({ s with thread_id := hash t }.pushGuard t call .held)
    | _ => none
  | .release t =>
    match (s.threads t).phase, (s.threads t).guards with
    | .idle, g :: guards =>
      if g.state = .held then
        if g.call.recursive then
          some ({ s with thread_id := 0 }.setThread t { guards, phase := .unlocking g.call })
        else
          some ({ s with mtx := s.mtx.unlock t (kind.mode g.call.mode) }.setThread t { guards })
      else some (s.setThread t { guards })
    | _, _ => none
  | .unlock t =>
    match (s.threads t).phase with
    | .unlocking call =>
      some ({ s with mtx := s.mtx.unlock t (kind.mode call.mode) }.setPhase t .idle)
    | _ => none

def system : Lts (Locker τ) (LockOp τ) where
  init s := s = {}
  step s op s' := s.step kind hash op = some s'

def Owns (s : Locker τ) (t : τ) (mode : Mode) : Prop :=
  ∃ g ∈ (s.threads t).guards, g.call.mode = mode ∧ g.state ≠ .failed

def Excludes (s : Locker τ) : Prop :=
  ∀ t t', s.Owns t .unique → ∀ mode, s.Owns t' mode → t' = t

end Locker

/-- Each guard that found the mutex locked by its thread is inside one that locked it. -/
def Backed (P : Guard → Guard → Prop) : List Guard → Prop
  | [] => True
  | g :: guards =>
    (g.state = .nested → ∃ g' ∈ guards, g'.state = .held ∧ P g g') ∧ Backed P guards

namespace Locker

variable (kind : LockerKind) (hash : τ → UInt64)

/-- What the guards of a thread locked is still locked for it. -/
structure Keeps (s : Locker τ) (t : τ) : Prop where
  unique : ∀ g ∈ (s.threads t).guards, g.state = .held → kind.mode g.call.mode = .unique →
    s.mtx.owner = some t
  shared : ((s.threads t).guards.filter fun g =>
    g.state = .held ∧ kind.mode g.call.mode = .shared).length ≤ s.mtx.readers.count t
  nested : Backed (fun _ _ => True) (s.threads t).guards

end Locker

/-- A unique guard is not nested in a shared lock; `mine` says that the thread's id is stored. -/
def Phase.NoUpgrade (kind : LockerKind) (mine : Prop) (guards : List Guard) : Phase → Prop
  | .comparing call => call.mode = .unique → mine →
      ∀ g ∈ guards, g.state = .held → kind.mode g.call.mode = .unique
  | _ => True

instance (kind : LockerKind) (mine : Prop) [Decidable mine] (guards : List Guard) :
    (phase : Phase) → Decidable (phase.NoUpgrade kind mine guards)
  | .comparing call => inferInstanceAs (Decidable (call.mode = .unique → mine →
      ∀ g ∈ guards, g.state = .held → kind.mode g.call.mode = .unique))
  | .idle => .isTrue trivial
  | .locking _ => .isTrue trivial
  | .storing _ => .isTrue trivial
  | .unlocking _ => .isTrue trivial

namespace Locker

variable (kind : LockerKind) (hash : τ → UInt64)

def NoUpgrade (s : Locker τ) : LockOp τ → Prop
  | .compare t =>
    (s.threads t).phase.NoUpgrade kind (s.thread_id = hash t) (s.threads t).guards
  | _ => True

instance (s : Locker τ) : (op : LockOp τ) → Decidable (s.NoUpgrade kind hash op)
  | .compare _ => inferInstanceAs (Decidable (Phase.NoUpgrade ..))
  | .call .. => .isTrue trivial
  | .lock _ => .isTrue trivial
  | .fail _ => .isTrue trivial
  | .store _ => .isTrue trivial
  | .release _ => .isTrue trivial
  | .unlock _ => .isTrue trivial

end Locker

/-! Recursive locks exclude, as long as no thread takes a unique guard inside a shared one. -/

variable {τ : Type} [DecidableEq τ] {kind : LockerKind} {hash : τ → UInt64} {s s' : Locker τ}
  {t t' : τ} {g : Guard} {guards : List Guard} {P : Guard → Guard → Prop} {call : LockCall}
  {mtx mtx' : Mutex τ} {mode : Mode}

theorem Backed.tail (h : Backed P (g :: guards)) : Backed P guards := h.2

theorem Backed.push (h : Backed P guards)
    (hg : g.state = .nested → ∃ g' ∈ guards, g'.state = .held ∧ P g g') : Backed P (g :: guards) :=
  ⟨hg, h⟩

theorem Backed.of_mem (h : Backed P guards) (hg : g ∈ guards) (hnested : g.state = .nested) :
    ∃ g' ∈ guards, g'.state = .held ∧ P g g' := by
  induction guards with
  | nil => cases hg
  | cons g₀ guards ih =>
    cases hg with
    | head =>
      obtain ⟨g', hmem, hg'⟩ := h.1 hnested
      exact ⟨g', List.mem_cons_of_mem _ hmem, hg'⟩
    | tail _ hg =>
      obtain ⟨g', hmem, hg'⟩ := ih h.2 hg
      exact ⟨g', List.mem_cons_of_mem _ hmem, hg'⟩

/-! ## The mutex -/

namespace Mutex

def Sound (m : Mutex τ) : Prop := ∀ t, m.owner = some t → m.readers = []

def count (m : Mutex τ) (t : τ) : Mode → ℕ
  | .unique => if m.owner = some t then 1 else 0
  | .shared => m.readers.count t

theorem sound_lock (hlock : mtx.lock t mode = some mtx') :
    mtx'.Sound ∧ (∀ m, mtx'.count t m = mtx.count t m + if m = mode then 1 else 0) ∧
      ∀ t' m, t' ≠ t → mtx'.count t' m = mtx.count t' m := by
  cases mode with
  | unique =>
    simp only [Mutex.lock] at hlock
    split_ifs at hlock with hfree
    injection hlock with hlock
    subst hlock
    refine ⟨fun _ _ => hfree.2, fun m => ?_, fun t' m ht => ?_⟩
    · cases m with
      | unique => simp [count, hfree.1]
      | shared => simp [count]
    · cases m with
      | unique => simp [count, hfree.1, ht.symm]
      | shared => rfl
  | shared =>
    simp only [Mutex.lock] at hlock
    split_ifs at hlock with hfree
    injection hlock with hlock
    subst hlock
    refine ⟨fun t ht => ?_, fun m => ?_, fun t' m ht => ?_⟩
    · exact absurd (hfree.symm.trans ht) (Option.some_ne_none t).symm
    · cases m with
      | unique => simp [count]
      | shared => simp [count]
    · cases m with
      | unique => rfl
      | shared => simp [count, ht.symm]

theorem Sound.unlock (h : mtx.Sound) (hheld : 0 < mtx.count t mode) :
    (mtx.unlock t mode).Sound ∧
      (∀ m, (mtx.unlock t mode).count t m = mtx.count t m - if m = mode then 1 else 0) ∧
      ∀ t' m, t' ≠ t → (mtx.unlock t mode).count t' m = mtx.count t' m := by
  cases mode with
  | unique =>
    have howner : mtx.owner = some t := by
      by_contra hne
      simp [count, hne] at hheld
    refine ⟨fun _ ht => ?_, fun m => ?_, fun t' m ht => ?_⟩
    · exact absurd ht (Option.some_ne_none _).symm
    · cases m with
      | unique => simp [count, Mutex.unlock, howner]
      | shared => simp [count, Mutex.unlock]
    · cases m with
      | unique => simp [count, Mutex.unlock, howner, ht.symm]
      | shared => rfl
  | shared =>
    refine ⟨fun t' ht => ?_, fun m => ?_, fun t' m ht => ?_⟩
    · have hnil : mtx.readers = [] := h t' ht
      simp [Mutex.unlock, hnil]
    · cases m with
      | unique => rfl
      | shared => simp [count, Mutex.unlock]
    · cases m with
      | unique => rfl
      | shared => simp [count, Mutex.unlock, List.count_erase_of_ne ht]

theorem Sound.eq_of_unique (h : mtx.Sound) (ht : 0 < mtx.count t .unique)
    (ht' : 0 < mtx.count t' mode) : t' = t := by
  have howner : mtx.owner = some t := by
    by_contra hne
    simp [count, hne] at ht
  cases mode with
  | unique =>
    have howner' : mtx.owner = some t' := by
      by_contra hne
      simp [count, hne] at ht'
    exact Option.some.inj (howner'.symm.trans howner)
  | shared =>
    have hnil : mtx.readers = [] := h t howner
    simp [count, hnil] at ht'

end Mutex

/-! ## What each thread may rely on -/

/-- The mode that a thread has locked between two steps without a guard. -/
def Phase.locked (kind : LockerKind) : Phase → List Mode
  | .storing call => [kind.mode call.mode]
  | .unlocking call => [kind.mode call.mode]
  | _ => []

def heldModes (kind : LockerKind) (guards : List Guard) : List Mode :=
  (guards.filter (·.state = .held)).map fun g => kind.mode g.call.mode

theorem heldModes_cons_of_ne (h : g.state ≠ .held) (guards : List Guard) :
    heldModes kind (g :: guards) = heldModes kind guards := by
  unfold heldModes
  rw [List.filter_cons_of_neg]
  simpa using h

theorem mem_heldModes (hg : g ∈ guards) (hheld : g.state = .held) :
    kind.mode g.call.mode ∈ heldModes kind guards :=
  List.mem_map.mpr ⟨g, List.mem_filter.mpr ⟨hg, decide_eq_true hheld⟩, rfl⟩

theorem count_head (mode m : Mode) (modes : List Mode) :
    (mode :: modes).count m = modes.count m + if m = mode then 1 else 0 := by
  by_cases h : m = mode
  · simp [h]
  · simp [h, Ne.symm h]

theorem count_tail (mode m : Mode) (modes : List Mode) :
    modes.count m = (mode :: modes).count m - if m = mode then 1 else 0 := by
  rw [count_head, Nat.add_sub_cancel]

namespace ThreadState

def locked (kind : LockerKind) (th : ThreadState) : List Mode :=
  th.phase.locked kind ++ heldModes kind th.guards

/-- A thread before the mutex has another id than is stored; a store follows only a recursive lock. -/
def PhaseSound (hash : τ → UInt64) (thread_id : UInt64) (t : τ) : Phase → Prop
  | .locking call => call.recursive = true → thread_id ≠ hash t
  | .comparing call => call.recursive = true
  | .storing call => call.recursive = true
  | _ => True

structure Sound (kind : LockerKind) (hash : τ → UInt64) (mtx : Mutex τ) (thread_id : UInt64) (t : τ)
    (th : ThreadState) : Prop where
  locked : ∀ m, (th.locked kind).count m = mtx.count t m
  /-- The thread whose id is stored has a recursive guard. -/
  id : thread_id = hash t → ∃ g ∈ th.guards, g.state = .held ∧ g.call.recursive = true
  phase : PhaseSound hash thread_id t th.phase

variable {th : ThreadState} {thread_id thread_id' : UInt64}

theorem Sound.other (h : th.Sound kind hash mtx thread_id t')
    (hmtx : ∀ m, mtx'.count t' m = mtx.count t' m)
    (hid : thread_id' = hash t' → thread_id = hash t') : th.Sound kind hash mtx' thread_id' t' where
  locked m := (h.locked m).trans (hmtx m).symm
  id := fun heq => h.id (hid heq)
  phase := by
    have hphase := h.phase
    cases hph : th.phase with
    | locking call =>
      rw [hph] at hphase
      exact fun hrec heq => hphase hrec (hid heq)
    | idle => trivial
    | comparing call =>
      rw [hph] at hphase
      exact hphase
    | storing call =>
      rw [hph] at hphase
      exact hphase
    | unlocking call => trivial

theorem Sound.held (h : th.Sound kind hash mtx thread_id t) (hg : g ∈ th.guards)
    (hheld : g.state = .held) : 0 < mtx.count t (kind.mode g.call.mode) := by
  rw [← h.locked, List.count_pos_iff]
  exact List.mem_append_right _ (mem_heldModes hg hheld)

end ThreadState

namespace Locker

structure Sound (kind : LockerKind) (hash : τ → UInt64) (s : Locker τ) : Prop where
  mtx : s.mtx.Sound
  thread : ∀ t, (s.threads t).Sound kind hash s.mtx s.thread_id t

theorem Sound.setThread (h : s.Sound kind hash) {mtx' : Mutex τ} {thread_id' : UInt64}
    {th' : ThreadState} (hmtx : mtx'.Sound)
    (hcount : ∀ t' m, t' ≠ t → mtx'.count t' m = s.mtx.count t' m)
    (hid : ∀ t', t' ≠ t → thread_id' = hash t' → s.thread_id = hash t')
    (hth : th'.Sound kind hash mtx' thread_id' t) :
    ({ s with mtx := mtx', thread_id := thread_id' }.setThread t th').Sound kind hash where
  mtx := hmtx
  thread t' := by
    by_cases ht : t' = t
    · subst ht
      simpa [Locker.setThread] using hth
    · simpa [Locker.setThread, ht] using
        (h.thread t').other (hcount t' · ht) (hid t' ht)

variable {op : LockOp τ}

theorem sound_init (hne : ∀ t, hash t ≠ 0) : ({} : Locker τ).Sound kind hash where
  mtx _ h := absurd h (Option.some_ne_none _).symm
  thread t :=
    { locked := fun m => by cases m <;> rfl
      id := fun h => absurd h.symm (hne t)
      phase := trivial }

theorem Sound.step (hinj : hash.Injective) (hne : ∀ t, hash t ≠ 0) (h : s.Sound kind hash)
    (hstep : s.step kind hash op = some s') : s'.Sound kind hash := by
  cases op with
  | call t call =>
    have ht := h.thread t
    simp only [Locker.step] at hstep
    split at hstep
    · rename_i hphase
      injection hstep with hstep
      subst hstep
      have hlocked := ht.locked
      unfold ThreadState.locked at hlocked
      rw [hphase] at hlocked
      refine h.setThread h.mtx (fun _ _ _ => rfl) (fun _ _ => id) ⟨fun m => ?_, ht.id, ?_⟩
      · unfold ThreadState.locked
        split_ifs
        · exact hlocked m
        · exact hlocked m
      · dsimp only
        split_ifs with hrec
        · exact hrec
        · exact fun h => absurd h hrec
    · cases hstep
  | compare t =>
    have ht := h.thread t
    simp only [Locker.step] at hstep
    split at hstep
    · rename_i call hphase
      have hlocked := ht.locked
      unfold ThreadState.locked at hlocked
      rw [hphase] at hlocked
      split_ifs at hstep with hid
      · injection hstep with hstep
        subst hstep
        exact h.setThread h.mtx (fun _ _ _ => rfl) (fun _ _ => id)
          ⟨hlocked, ht.id, fun _ => Ne.symm hid⟩
      · injection hstep with hstep
        subst hstep
        rw [ne_eq, not_not] at hid
        obtain ⟨g, hg, hheld, hrec⟩ := ht.id hid.symm
        refine h.setThread h.mtx (fun _ _ _ => rfl) (fun _ _ => id)
          ⟨fun m => ?_, fun _ => ⟨g, List.mem_cons_of_mem _ hg, hheld, hrec⟩, trivial⟩
        unfold ThreadState.locked
        rw [heldModes_cons_of_ne GuardState.noConfusion]
        exact hlocked m
    · cases hstep
  | lock t =>
    have ht := h.thread t
    simp only [Locker.step] at hstep
    split at hstep
    · rename_i call hphase
      obtain ⟨mtx, hlock, heq⟩ := Option.map_eq_some_iff.mp hstep
      obtain ⟨hsound, hcount, hother⟩ := Mutex.sound_lock hlock
      have hlocked := ht.locked
      unfold ThreadState.locked at hlocked
      rw [hphase] at hlocked
      have hnew : ∀ m, (kind.mode call.mode :: heldModes kind (s.threads t).guards).count m =
          mtx.count t m := by
        intro m
        rw [count_head, hcount, ← hlocked m]
        rfl
      split_ifs at heq with hrec
      · subst heq
        exact h.setThread hsound (fun t' m ht => hother t' m ht) (fun _ _ => id)
          ⟨hnew, ht.id, hrec⟩
      · subst heq
        refine h.setThread hsound (fun t' m ht => hother t' m ht) (fun _ _ => id)
          ⟨hnew, fun hid => ?_, trivial⟩
        obtain ⟨g, hg, hg'⟩ := ht.id hid
        exact ⟨g, List.mem_cons_of_mem _ hg, hg'⟩
    · cases hstep
  | fail t =>
    have ht := h.thread t
    simp only [Locker.step] at hstep
    split at hstep
    · rename_i call hphase
      have hlocked := ht.locked
      unfold ThreadState.locked at hlocked
      rw [hphase] at hlocked
      split_ifs at hstep
      injection hstep with hstep
      subst hstep
      refine h.setThread h.mtx (fun _ _ _ => rfl) (fun _ _ => id)
        ⟨fun m => ?_, fun hid => ?_, trivial⟩
      · unfold ThreadState.locked
        rw [heldModes_cons_of_ne GuardState.noConfusion]
        exact hlocked m
      · obtain ⟨g, hg, hg'⟩ := ht.id hid
        exact ⟨g, List.mem_cons_of_mem _ hg, hg'⟩
    · cases hstep
  | store t =>
    have ht := h.thread t
    simp only [Locker.step] at hstep
    split at hstep
    · rename_i call hphase
      have hlocked := ht.locked
      have hrec := ht.phase
      unfold ThreadState.locked at hlocked
      rw [hphase] at hlocked hrec
      injection hstep with hstep
      subst hstep
      refine h.setThread h.mtx (fun _ _ _ => rfl) (fun t' ht' hid => ?_)
        ⟨hlocked, fun _ => ⟨_, List.mem_cons_self, rfl, hrec⟩, trivial⟩
      exact absurd (hinj hid).symm ht'
    · cases hstep
  | release t =>
    have ht := h.thread t
    simp only [Locker.step] at hstep
    split at hstep
    · rename_i g guards hphase hguards
      have hlocked := ht.locked
      unfold ThreadState.locked at hlocked
      rw [hphase, hguards] at hlocked
      have hid := ht.id
      rw [hguards] at hid
      split_ifs at hstep with hheld hrec
      · injection hstep with hstep
        subst hstep
        obtain ⟨call, state⟩ := g
        subst hheld
        exact h.setThread h.mtx (fun _ _ _ => rfl) (fun t' _ hid => absurd hid.symm (hne t'))
          ⟨hlocked, fun hid => absurd hid.symm (hne t), trivial⟩
      · injection hstep with hstep
        subst hstep
        obtain ⟨call, state⟩ := g
        subst hheld
        have hheld : 0 < s.mtx.count t (kind.mode call.mode) :=
          ht.held (hguards ▸ List.mem_cons_self) rfl
        obtain ⟨hsound, hcount, hother⟩ := h.mtx.unlock hheld
        refine h.setThread hsound (fun t' m ht => hother t' m ht) (fun _ _ => id)
          ⟨fun m => ?_, fun hid' => ?_, trivial⟩
        · rw [hcount, ← hlocked m]
          exact count_tail _ _ _
        · obtain ⟨g, hg, hg'⟩ := hid hid'
          cases hg with
          | head => exact absurd hg'.2 hrec
          | tail _ hg => exact ⟨g, hg, hg'⟩
      · injection hstep with hstep
        subst hstep
        rw [heldModes_cons_of_ne hheld] at hlocked
        refine h.setThread h.mtx (fun _ _ _ => rfl) (fun _ _ => id)
          ⟨hlocked, fun hid' => ?_, trivial⟩
        obtain ⟨g', hg, hg'⟩ := hid hid'
        cases hg with
        | head => exact absurd hg'.1 hheld
        | tail _ hg => exact ⟨g', hg, hg'⟩
    · cases hstep
  | unlock t =>
    have ht := h.thread t
    simp only [Locker.step] at hstep
    split at hstep
    · rename_i call hphase
      have hlocked := ht.locked
      unfold ThreadState.locked at hlocked
      rw [hphase] at hlocked
      injection hstep with hstep
      subst hstep
      have hheld : 0 < s.mtx.count t (kind.mode call.mode) := by
        rw [← hlocked]
        exact List.count_pos_iff.mpr List.mem_cons_self
      obtain ⟨hsound, hcount, hother⟩ := h.mtx.unlock hheld
      refine h.setThread hsound (fun t' m ht => hother t' m ht) (fun _ _ => id)
        ⟨fun m => ?_, ht.id, trivial⟩
      rw [hcount, ← hlocked m]
      exact count_tail _ _ _
    · cases hstep

@[simp] theorem threads_setThread_self (s : Locker τ) (t : τ) (th : ThreadState) :
    (s.setThread t th).threads t = th := by
  simp [Locker.setThread]

theorem threads_setThread_of_ne (h : t' ≠ t) (s : Locker τ) (th : ThreadState) :
    (s.setThread t th).threads t' = s.threads t' := by
  simp [Locker.setThread, h]

/-- What is known of the guards of a thread that a step of any thread may have changed. -/
def GuardsStep (hash : τ → UInt64) (s : Locker τ) (op : LockOp τ) (t : τ) (guards' : List Guard) :
    Prop :=
  guards' = (s.threads t).guards ∨ (∃ g, (s.threads t).guards = g :: guards') ∨
    ∃ g, guards' = g :: (s.threads t).guards ∧
      (g.state = .nested →
        op = .compare t ∧ (s.threads t).phase = .comparing g.call ∧ s.thread_id = hash t) ∧
      (g.state = .failed → op = .fail t ∧ (s.threads t).phase = .locking g.call)

theorem guardsStep_setThread {s₀ : Locker τ} (hs₀ : s₀.threads = s.threads) {th : ThreadState}
    (h : GuardsStep hash s op t th.guards) (t' : τ) :
    GuardsStep hash s op t' ((s₀.setThread t th).threads t').guards := by
  by_cases ht : t' = t
  · subst ht
    rwa [threads_setThread_self]
  · rw [threads_setThread_of_ne ht, hs₀]
    exact .inl rfl

theorem guardsStep_setPhase {s₀ : Locker τ} (hs₀ : s₀.threads = s.threads) (phase : Phase) (t' : τ) :
    GuardsStep hash s op t' ((s₀.setPhase t phase).threads t').guards :=
  guardsStep_setThread hs₀ (.inl (by rw [hs₀])) t'

omit [DecidableEq τ] in
theorem GuardsStep.held (call : LockCall) :
    GuardsStep hash s op t ({ call, state := .held } :: (s.threads t).guards) :=
  .inr (.inr ⟨_, rfl, GuardState.noConfusion, GuardState.noConfusion⟩)

/-- A step leaves the guards of a thread, adds one or takes the innermost away. -/
theorem guards_step (hstep : s.step kind hash op = some s') (t : τ) :
    GuardsStep hash s op t (s'.threads t).guards := by
  cases op with
  | call t₀ call =>
    simp only [Locker.step] at hstep
    split at hstep
    · injection hstep with hstep
      subst hstep
      exact guardsStep_setPhase rfl _ t
    · cases hstep
  | compare t₀ =>
    simp only [Locker.step] at hstep
    split at hstep
    · rename_i call hphase
      split_ifs at hstep with hid
      · injection hstep with hstep
        subst hstep
        exact guardsStep_setPhase rfl _ t
      · injection hstep with hstep
        subst hstep
        rw [ne_eq, not_not] at hid
        exact guardsStep_setThread rfl 
          (.inr (.inr ⟨_, rfl, fun _ => ⟨rfl, hphase, hid.symm⟩, GuardState.noConfusion⟩)) t
    · cases hstep
  | lock t₀ =>
    simp only [Locker.step] at hstep
    split at hstep
    · rename_i call hphase
      obtain ⟨mtx, -, heq⟩ := Option.map_eq_some_iff.mp hstep
      split_ifs at heq
      · subst heq
        exact guardsStep_setPhase rfl _ t
      · subst heq
        exact guardsStep_setThread rfl (.held call) t
    · cases hstep
  | fail t₀ =>
    simp only [Locker.step] at hstep
    split at hstep
    · rename_i call hphase
      split_ifs at hstep
      injection hstep with hstep
      subst hstep
      exact guardsStep_setThread rfl
        (.inr (.inr ⟨_, rfl, GuardState.noConfusion, fun _ => ⟨rfl, hphase⟩⟩)) t
    · cases hstep
  | store t₀ =>
    simp only [Locker.step] at hstep
    split at hstep
    · rename_i call hphase
      injection hstep with hstep
      subst hstep
      exact guardsStep_setThread rfl (.held call) t
    · cases hstep
  | release t₀ =>
    simp only [Locker.step] at hstep
    split at hstep
    · rename_i g guards hphase hguards
      split_ifs at hstep
      · injection hstep with hstep
        subst hstep
        exact guardsStep_setThread rfl (.inr (.inl ⟨g, hguards⟩)) t
      · injection hstep with hstep
        subst hstep
        exact guardsStep_setThread rfl (.inr (.inl ⟨g, hguards⟩)) t
      · injection hstep with hstep
        subst hstep
        exact guardsStep_setThread rfl (.inr (.inl ⟨g, hguards⟩)) t
    · cases hstep
  | unlock t₀ =>
    simp only [Locker.step] at hstep
    split at hstep
    · injection hstep with hstep
      subst hstep
      exact guardsStep_setPhase rfl _ t
    · cases hstep

/-- A property of guards and what they are nested in holds when it does where they are made. -/
theorem backed_step (hstep : s.step kind hash op = some s')
    (h : ∀ t, Backed P (s.threads t).guards)
    (hnew : ∀ t call, op = .compare t → (s.threads t).phase = .comparing call →
      s.thread_id = hash t →
        ∃ g' ∈ (s.threads t).guards, g'.state = .held ∧ P { call, state := .nested } g')
    (t : τ) : Backed P (s'.threads t).guards := by
  obtain heq | ⟨g, heq⟩ | ⟨⟨call, state⟩, heq, hnested⟩ := guards_step hstep t
  · exact heq ▸ h t
  · have := h t
    rw [heq] at this
    exact this.tail
  · rw [heq]
    refine (h t).push fun hstate => ?_
    have hstate : state = .nested := hstate
    subst hstate
    obtain ⟨hop, hphase, hid⟩ := hnested.1 rfl
    exact hnew t call hop hphase hid

def BackedMode (kind : LockerKind) (g g' : Guard) : Prop :=
  g.call.mode = .unique → kind.mode g'.call.mode = .unique

theorem sound_run (hinj : hash.Injective) (hne : ∀ t, hash t ≠ 0)
    (h : (system kind hash).Reach s) : s.Sound kind hash := by
  refine h.invariant (fun s h0 => ?_) fun s op s' h _ hs => h.step hinj hne hs
  have h0 : s = {} := h0
  exact h0 ▸ sound_init hne

theorem backed_run (hinj : hash.Injective) (hne : ∀ t, hash t ≠ 0)
    {ok : Locker τ → LockOp τ → Prop} (h : (system kind hash).Run ok s)
    (hnew : ∀ s t call, ok s (.compare t) → (s.threads t).phase = .comparing call →
      s.thread_id = hash t → ∀ g' ∈ (s.threads t).guards, g'.state = .held →
        P { call, state := .nested } g') (t : τ) : Backed P (s.threads t).guards := by
  induction h generalizing t with
  | init h0 =>
    have h0 : _ = ({} : Locker τ) := h0
    subst h0
    trivial
  | @step s op s' hrun hok hs ih =>
    refine backed_step hs ih (fun t call hop hphase hid => ?_) t
    subst hop
    have hsound := sound_run hinj hne (hrun.mono fun _ _ _ => trivial)
    obtain ⟨g', hg', hheld, -⟩ := (hsound.thread t).id hid
    exact ⟨g', hg', hheld, hnew s t call hok hphase hid g' hg' hheld⟩

theorem keeps_run (hinj : hash.Injective) (hne : ∀ t, hash t ≠ 0)
    (h : (system kind hash).Reach s) (t : τ) : s.Keeps kind t where
  unique g hg hheld hmode := by
    have hcount := ((sound_run hinj hne h).thread t).held hg hheld
    rw [hmode] at hcount
    by_contra hne
    simp [Mutex.count, hne] at hcount
  shared := by
    have hcount := ((sound_run hinj hne h).thread t).locked .shared
    have hreaders : s.mtx.count t .shared = s.mtx.readers.count t := rfl
    rw [← hreaders, ← hcount]
    unfold ThreadState.locked heldModes
    rw [List.count_append, List.count, List.countP_map, List.countP_filter,
      List.countP_eq_length_filter]
    refine Nat.le_trans (Nat.le_of_eq ?_) (Nat.le_add_left _ _)
    rw [← List.countP_eq_length_filter]
    congr 1
    funext g
    rw [Bool.decide_and]
    exact Bool.and_comm _ _
  nested := backed_run hinj hne h (fun _ _ _ _ _ _ _ _ _ => trivial) t

/-- A unique guard of an upright locker has the mutex for its thread. -/
theorem held_of_owns (hsound : s.Sound kind hash)
    (hnested : Backed (BackedMode kind) (s.threads t).guards) (howns : s.Owns t mode) :
    ∃ m, 0 < s.mtx.count t m ∧ (mode = .unique → m = .unique) := by
  obtain ⟨g, hg, rfl, hstate⟩ := howns
  cases hg' : g.state with
  | held =>
    refine ⟨_, (hsound.thread t).held hg hg', fun hmode => ?_⟩
    rw [hmode]
    cases kind <;> rfl
  | nested =>
    obtain ⟨g', hmem, hheld, hmode⟩ := hnested.of_mem hg hg'
    exact ⟨_, (hsound.thread t).held hmem hheld, hmode⟩
  | failed => exact absurd hg' hstate

theorem excludes_run (hinj : hash.Injective) (hne : ∀ t, hash t ≠ 0)
    (h : (system kind hash).Run (NoUpgrade kind hash) s) : s.Excludes := by
  have hsound := sound_run hinj hne (h.mono fun _ _ _ => trivial)
  have hnested : ∀ t, Backed (BackedMode kind) (s.threads t).guards := by
    refine backed_run hinj hne h fun s t call hok hphase hid g' hg' hheld hmode => ?_
    have hok : (s.threads t).phase.NoUpgrade kind _ _ := hok
    rw [hphase] at hok
    exact hok hmode hid g' hg' hheld
  intro t t' howns mode howns'
  obtain ⟨m, hcount, hm⟩ := held_of_owns hsound (hnested t) howns
  obtain ⟨m', hcount', -⟩ := held_of_owns hsound (hnested t') howns'
  rw [hm rfl] at hcount
  exact hsound.mtx.eq_of_unique hcount hcount'

/-- The guards of `locker` may be nested in any way. -/
theorem excludes_locker (hinj : hash.Injective) (hne : ∀ t, hash t ≠ 0)
    (h : (system .locker hash).Reach s) : s.Excludes := by
  refine excludes_run hinj hne (h.mono fun s op _ => ?_)
  cases op with
  | compare t =>
    change (s.threads t).phase.NoUpgrade _ _ _
    cases (s.threads t).phase with
    | comparing call => exact fun _ _ _ _ _ => rfl
    | _ => trivial
  | _ => trivial

/-- In every run each guard keeps what it locked, and where no unique guard is nested in a shared
lock a unique owner is the only one. -/
theorem keeps_excludes_run (hinj : hash.Injective) (hne : ∀ t, hash t ≠ 0) :
    (∀ s : Locker τ, (system kind hash).Reach s → ∀ t, s.Keeps kind t) ∧
      ∀ s : Locker τ, (system kind hash).Run (NoUpgrade kind hash) s → s.Excludes :=
  ⟨fun _ h => keeps_run hinj hne h, fun _ h => excludes_run hinj hne h⟩

def twoHashes (t : Bool) : UInt64 := if t then 2 else 1

theorem twoHashes_injective : Function.Injective twoHashes := by
  unfold Function.Injective
  decide

theorem twoHashes_ne (t : Bool) : twoHashes t ≠ 0 := by
  cases t <;> decide

def uniqueRec : LockCall := { mode := .unique, recursive := true, try_lock := false }

def sharedRec : LockCall := { mode := .shared, recursive := true, try_lock := false }

def runTwo (ok : Locker Bool → LockOp Bool → Prop) [∀ s op, Decidable (ok s op)]
    (ops : List (LockOp Bool)) : Option (Locker Bool) :=
  Lts.execAll (fun op s => s.step .shared_locker twoHashes op) ok ops {}

theorem run_runTwo {ok : Locker Bool → LockOp Bool → Prop} [∀ s op, Decidable (ok s op)]
    {ops : List (LockOp Bool)} {s : Locker Bool} (h : runTwo ok ops = some s) :
    (system .shared_locker twoHashes).Run ok s :=
  Lts.Run.execAll _ _ (fun _ _ _ hs => hs) (.init rfl) h

/-- A thread has a shared guard in a unique one. -/
theorem keeps_excludes_run_nested : ∃ s : Locker Bool,
    (s.threads true).guards.map Guard.state = [.nested, .held] ∧ s.Excludes ∧
      ∀ t, s.Keeps .shared_locker t := by
  have hrun : (runTwo (NoUpgrade .shared_locker twoHashes) [.call true uniqueRec, .compare true,
      .lock true, .store true, .call true sharedRec, .compare true]).map
        (fun s => (s.threads true).guards.map Guard.state) = some [.nested, .held] := by
    decide +kernel
  obtain ⟨s, hs, hguards⟩ := Option.map_eq_some_iff.mp hrun
  have hall : (∀ s, (system .shared_locker twoHashes).Reach s → ∀ t, s.Keeps .shared_locker t) ∧
      ∀ s, (system .shared_locker twoHashes).Run (NoUpgrade .shared_locker twoHashes) s →
        s.Excludes :=
    keeps_excludes_run twoHashes_injective twoHashes_ne
  have hs := run_runTwo hs
  exact ⟨s, hguards, hall.2 s hs, hall.1 s (hs.mono fun _ _ _ => trivial)⟩

/-- A unique guard inside a shared one finds its own id, while another thread reads. -/
theorem not_excludes_run : ¬∀ s : Locker Bool,
    (system .shared_locker twoHashes).Reach s → s.Excludes := by
  intro h
  have hrun : (runTwo (fun _ _ => True) [.call false sharedRec, .compare false, .lock false,
      .store false, .call true sharedRec, .compare true, .lock true, .store true,
      .call true uniqueRec, .compare true]).map
        (fun s => ((s.threads true).guards, (s.threads false).guards)) =
          some ([⟨uniqueRec, .nested⟩, ⟨sharedRec, .held⟩], [⟨sharedRec, .held⟩]) := by
    decide +kernel
  obtain ⟨s, hs, hguards⟩ := Option.map_eq_some_iff.mp hrun
  injection hguards with htrue hfalse
  have hunique : s.Owns true .unique :=
    ⟨⟨uniqueRec, .nested⟩, htrue ▸ List.mem_cons_self, rfl, GuardState.noConfusion⟩
  have hshared : s.Owns false .shared :=
    ⟨⟨sharedRec, .held⟩, hfalse ▸ List.mem_cons_self, rfl, GuardState.noConfusion⟩
  exact Bool.noConfusion (h s (run_runTwo hs) _ _ hunique _ hshared)

end Locker

end Freeminer.Threading
