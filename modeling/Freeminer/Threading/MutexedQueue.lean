import Mathlib.Data.List.Basic
import Mathlib.Tactic.Cases
import Freeminer.Lib.Machine

/-! `MutexedQueue`: the elements are in the deque and their number is in the semaphore. Each
section under the mutex is one step; waiting on the semaphore, and the post after an iteration
helper has unlocked the mutex, are steps of their own. -/

namespace Freeminer.Threading

/-- The six ways to pop: the end that the element is taken from, whether the wait has a limit,
and whether it throws at the limit instead of returning `T()`. -/
structure PopCall where
  back : Bool
  timed : Bool
  throws : Bool
deriving DecidableEq

namespace PopCall

def pop_frontNoEx_ms : PopCall := ⟨false, true, false⟩
def pop_front : PopCall := ⟨false, true, true⟩
def pop_frontNoEx : PopCall := ⟨false, false, false⟩
def pop_back : PopCall := ⟨true, true, true⟩
def pop_backNoEx_ms : PopCall := ⟨true, true, false⟩
def pop_backNoEx : PopCall := ⟨true, false, false⟩

end PopCall

inductive PopAnswer (α : Type*) where
  | none
  | element (x : α)
  | empty
  | itemNotFound
deriving DecidableEq

structure MutexedQueue (τ α : Type*) where
  m_queue : List α := []
  m_signal : ℕ := 0
  /-- The poppers that have passed the wait and not yet taken an element. -/
  passed : List (τ × PopCall) := []
  /-- The threads whose iteration helper has unlocked the mutex and not yet posted. -/
  unposted : List τ := []
  /-- `front()` or `back()` was called on an empty deque: nothing is said of what follows. -/
  read_empty : Bool := false
deriving DecidableEq

inductive QueueOp (τ α : Type*) where
  | push_back (t : τ) (x : α)
  | wait (t : τ) (call : PopCall)
  | timeout (t : τ) (call : PopCall)
  | take (t : τ) (call : PopCall)
  | iterLocked (t : τ) (rest : List α)
  | post (t : τ)

namespace MutexedQueue

variable {τ α : Type*}

/-- `T t = std::move(m_queue.front()); m_queue.pop_front()`, or the same at the back. -/
def take (q : MutexedQueue τ α) (call : PopCall) : MutexedQueue τ α × PopAnswer α :=
  match if call.back then q.m_queue.getLast? else q.m_queue.head? with
  | some x =>
    ({ q with m_queue := if call.back then q.m_queue.dropLast else q.m_queue.tail }, .element x)
  | none => ({ q with read_empty := true }, .none)

/-- What `clearAllQueues` leaves of a result queue. -/
def clearQueue {β : Type*} (ack_list : α → List β) (finish : Bool) (queue : List α) : List α :=
  queue.filter fun r => !((ack_list r).isEmpty || finish)

/-- The semaphore counts the elements that no popper has claimed; no pop read from an empty
deque, and where a popper has to block every element is claimed. -/
structure Counts (q : MutexedQueue τ α) : Prop where
  count : q.m_signal + q.passed.length = q.m_queue.length
  read : q.read_empty = false
  block : q.m_signal = 0 → q.m_queue.length ≤ q.passed.length

/-- The semaphore and the poppers are `n` more than the elements; a popper that read from the
empty deque still counts. -/
structure Over (n : ℕ) (q : MutexedQueue τ α) : Prop where
  sum : q.m_signal + q.passed.length + q.read_empty.toNat = q.m_queue.length + n
  read : q.read_empty → q.m_queue = []

/-- What a step adds to that: every erased element, and the post after the section. -/
def surplus (q : MutexedQueue τ α) : QueueOp τ α → ℕ
  | .iterLocked _ rest => q.m_queue.length - rest.length
  | .post _ => 1
  | _ => 0

variable {q q' : MutexedQueue τ α} {op : QueueOp τ α} {n : ℕ} {r : PopAnswer α}

theorem over_take (h : q.m_signal + q.passed.length + 1 = q.m_queue.length + n)
    (hread : q.read_empty = false) (call : PopCall) : Over n (q.take call).1 := by
  unfold take
  cases hx : (if call.back then q.m_queue.getLast? else q.m_queue.head?) with
  | some x =>
    have hne : q.m_queue ≠ [] := by
      intro hnil
      simp [hnil] at hx
    have hpos := List.length_pos_iff.mpr hne
    have hlen : (if call.back then q.m_queue.dropLast else q.m_queue.tail).length =
        q.m_queue.length - 1 := by
      split_ifs <;> simp
    refine ⟨?_, by simp [hread]⟩
    simp only [hlen, hread, Bool.toNat_false]
    omega
  | none =>
    refine ⟨by simpa using h, fun _ => ?_⟩
    split_ifs at hx
    · exact List.getLast?_eq_none_iff.mp hx
    · exact List.head?_eq_none_iff.mp hx

theorem counts_iff_over (h : Over n q) : q.Counts ↔ n = 0 := by
  have hsum := h.sum
  constructor
  · intro hc
    have := hc.count
    simp only [hc.read, Bool.toNat_false] at hsum
    omega
  · intro hn
    subst hn
    have hread : q.read_empty = false := by
      cases hr : q.read_empty
      · rfl
      · simp [hr, h.read hr] at hsum
    simp only [hread, Bool.toNat_false] at hsum
    exact ⟨by omega, hread, fun h0 => by omega⟩

variable [DecidableEq τ] [DecidableEq α]

def Idle (q : MutexedQueue τ α) (t : τ) : Prop := t ∉ q.passed.map Prod.fst ∧ t ∉ q.unposted

instance (q : MutexedQueue τ α) (t : τ) : Decidable (q.Idle t) :=
  inferInstanceAs (Decidable (_ ∧ _))

def step (q : MutexedQueue τ α) (op : QueueOp τ α) : Option (MutexedQueue τ α × PopAnswer α) :=
  if q.read_empty then none else
  match op with
  | .push_back t x =>
    if q.Idle t then
      some ({ q with m_queue := q.m_queue ++ [x], m_signal := q.m_signal + 1 }, .none)
    else none
  | .wait t call =>
    if q.Idle t ∧ 0 < q.m_signal then
      some ({ q with m_signal := q.m_signal - 1, passed := (t, call) :: q.passed }, .none)
    else none
  | .timeout t call =>
    if q.Idle t ∧ q.m_signal = 0 ∧ call.timed then
      some (q, if call.throws then .itemNotFound else .empty)
    else none
  | .take t call =>
    if (t, call) ∈ q.passed then
      some (take { q with passed := q.passed.erase (t, call) } call)
    else none
  | .iterLocked t rest =>
    -- the loop over the helper may erase any of the elements
    if q.Idle t ∧ rest.Sublist q.m_queue then
      some ({ q with m_queue := rest, unposted := t :: q.unposted }, .none)
    else none
  | .post t =>
    -- `q->getSignal().post()`, "assume modified", whatever the loop did
    if t ∈ q.unposted then
      some ({ q with m_signal := q.m_signal + 1, unposted := q.unposted.erase t }, .none)
    else none

def machine : Lib.Machine (MutexedQueue τ α) (QueueOp τ α) (PopAnswer α) := ⟨{}, step⟩

theorem over_step (h : Over n q) (hstep : q.step op = some (q', r)) :
    Over (n + q.surplus op) q' := by
  unfold step at hstep
  have hread : q.read_empty = false := by
    cases hr : q.read_empty
    · rfl
    · simp [hr] at hstep
  have h := h.sum
  simp only [hread, Bool.false_eq_true, if_false, Bool.toNat_false] at hstep h
  cases op with
  | push_back t x =>
    obtain ⟨-, h'⟩ := Option.ite_none_right_eq_some.mp hstep
    cases h'
    refine ⟨?_, by simp⟩
    simp only [surplus, List.length_append, List.length_singleton, Bool.toNat_false]
    omega
  | wait t call =>
    obtain ⟨⟨-, hpos⟩, h'⟩ := Option.ite_none_right_eq_some.mp hstep
    cases h'
    refine ⟨?_, by simp⟩
    simp only [surplus, List.length_cons, Bool.toNat_false]
    omega
  | timeout t call =>
    obtain ⟨-, h'⟩ := Option.ite_none_right_eq_some.mp hstep
    cases h'
    exact ⟨by simpa [surplus, hread] using h, by simp [hread]⟩
  | take t call =>
    obtain ⟨hmem, h'⟩ := Option.ite_none_right_eq_some.mp hstep
    have hpos := List.length_pos_of_mem hmem
    have hq := over_take (n := n)
      (q := { q with passed := q.passed.erase (t, call), read_empty := false })
      (by simp only [List.length_erase_of_mem hmem]; omega) rfl call
    rwa [Option.some.inj h'] at hq
  | iterLocked t rest =>
    obtain ⟨⟨-, hsub⟩, h'⟩ := Option.ite_none_right_eq_some.mp hstep
    have hle := hsub.length_le
    cases h'
    refine ⟨?_, by simp⟩
    simp only [surplus, Bool.toNat_false]
    omega
  | post t =>
    obtain ⟨-, h'⟩ := Option.ite_none_right_eq_some.mp hstep
    cases h'
    refine ⟨?_, by simp⟩
    simp only [surplus, Bool.toNat_false]
    omega

theorem over_run {ops : List (QueueOp τ α)} {rs : List (PopAnswer α)} (h : Over n q)
    (hrun : machine.run q ops = some (q', rs)) :
    ∃ m, Over (n + m) q' ∧ (m = 0 ↔ machine.Allowed (fun q op => q.surplus op = 0) q ops) := by
  induction ops generalizing q n rs with
  | nil =>
    cases hrun
    exact ⟨0, h, iff_of_true rfl trivial⟩
  | cons op ops ih =>
    obtain ⟨x, hx, hrun⟩ := Option.bind_eq_some_iff.mp hrun
    obtain ⟨y, hy, heq⟩ := Option.map_eq_some_iff.mp hrun
    cases heq
    obtain ⟨m, hm, hiff⟩ := ih (over_step h hx) hy
    refine ⟨q.surplus op + m, by rwa [← Nat.add_assoc], ?_⟩
    unfold Lib.Machine.Allowed
    rw [hx, Option.elim_some, ← hiff]
    omega

/-- The count is right after exactly the runs in which no iteration helper has erased an element
or come to its post. -/
theorem counts_iff {q : MutexedQueue τ α} {ops : List (QueueOp τ α)} {rs : List (PopAnswer α)}
    (hrun : machine.run {} ops = some (q, rs)) :
    q.Counts ↔ machine.Allowed (fun q op => q.surplus op = 0) {} ops := by
  obtain ⟨m, hm, hiff⟩ := over_run (n := 0) ⟨rfl, by simp⟩ hrun
  rw [counts_iff_over hm, Nat.zero_add, hiff]

/-- An element is pushed and taken. -/
theorem counts_iff_pop :
    (⟨[], 0, [], [], false⟩ : MutexedQueue ℕ ℕ).Counts ↔
      machine.Allowed (fun q op => q.surplus op = 0) ({} : MutexedQueue ℕ ℕ)
        [.push_back 0 7, .wait 1 .pop_front, .take 1 .pop_front] :=
  @counts_iff _ _ _ _ _ _ [.none, .none, .element 7] (by decide)

/-- The result queue is empty, `clearAllQueues` goes over it, and a popper reads from the empty
deque. -/
theorem not_counts : ¬ ∀ (ops : List (QueueOp ℕ ℕ)) (q : MutexedQueue ℕ ℕ)
    (rs : List (PopAnswer ℕ)), machine.run {} ops = some (q, rs) → q.Counts := by
  intro h
  have hc := h [.iterLocked 0 (clearQueue (fun _ => ([] : List ℕ)) false []), .post 0,
    .wait 1 .pop_frontNoEx, .take 1 .pop_frontNoEx] ⟨[], 0, [], [], true⟩
    [.none, .none, .none, .none] (by decide)
  exact absurd hc.read (by decide)

end MutexedQueue

end Freeminer.Threading
