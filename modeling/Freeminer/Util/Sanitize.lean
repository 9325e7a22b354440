import Mathlib.Data.List.TakeWhile
import Mathlib.Data.List.Infix
import Freeminer.Util.Serialize

/-! `sanitize_untrusted` (`util/string.cpp`): what is left of a text from somebody else. -/

namespace Freeminer.Util

/-- One round of the loop of `remove_indexed`, at `s`, `i` and `j`. -/
def removeStep (pred : ByteString → ℕ → Bool) (x : ByteString × ℕ × ℕ) : ByteString × ℕ × ℕ :=
  let (s, i, j) := x
  let j := if pred s i then j + 1 else j
  let i := i + 1
  -- `s[s.length()]` may be read: it is NUL
  (if i ≠ j then s.set j (s.getD i 0) else s, i, j)

def remove_indexed (s : ByteString) (pred : ByteString → ℕ → Bool) : ByteString :=
  let (s', _, j) := (removeStep pred)^[s.length] (s, 0, 0)
  s'.take j

/-- `check`: a letter. -/
def isLetter (c : UInt8) : Bool := (65 ≤ c && c ≤ 90) || (97 ≤ c && c ≤ 122)

def isFiltered (c : UInt8) : Bool := c < 9 || (13 ≤ c && c < 27) || (28 ≤ c && c < 32)

/-- What stays in the last pass: anything but an escape character without its sequence. -/
def keepEscape (s : ByteString) (i : ℕ) : Bool :=
  if s.getD i 0 ≠ 27 then true
  else if s.length ≤ i + 1 then false
  else if s.getD (i + 1) 0 = 40 then i + 2 < s.length && isLetter (s.getD (i + 2) 0)
  else isLetter (s.getD (i + 1) 0)

def sanitize_untrusted (str : ByteString) (keep_escapes : Bool) : ByteString :=
  let s := (str.takeWhile (· ≠ 0)).filter fun c => !isFiltered c
  if !keep_escapes then s.filter (· ≠ 27) else remove_indexed s keepEscape

def isSequence : ByteString → Bool
  | [] => false
  | c :: s => if c = 40 then s.head?.any isLetter else isLetter c

/-- An escape character, if the text starts with one, starts a sequence. -/
def EscapeAt : ByteString → Bool
  | [] => true
  | c :: s => c ≠ 27 || isSequence s

/-- No NUL, no filtered character, and escapes only before what they may stand before; none at
all where they are not kept. -/
structure Sanitized (keep_escapes : Bool) (s : ByteString) : Prop where
  chars : ∀ c ∈ s, c ≠ 0 ∧ isFiltered c = false
  escapes : if keep_escapes then ∀ t, t <:+ s → EscapeAt t else 27 ∉ s

/-! The loop keeps what is still to be read. -/

def filterTails (p : ByteString → Bool) : ByteString → ByteString
  | [] => []
  | c :: s => if p (c :: s) then c :: filterTails p s else filterTails p s

variable {p : ByteString → Bool} {pred : ByteString → ℕ → Bool} {s t : ByteString} {c : UInt8}

/-- After `i` rounds the kept bytes stand in front, and from `i` on nothing has changed. -/
structure Removed (p : ByteString → Bool) (s : ByteString) (i : ℕ) (x : ByteString × ℕ × ℕ) :
    Prop where
  index : x.2.1 = i
  le : x.2.2 ≤ i
  length : x.1.length = s.length
  rest : x.1.drop i = s.drop i
  next : x.2.2 < s.length → x.1[x.2.2]? = some (s.getD i 0)
  kept : x.1.take x.2.2 ++ filterTails p (s.drop i) = filterTails p s

theorem Removed.step (hpred : ∀ s i, pred s i = p (s.drop i)) {i : ℕ} (hi : i < s.length)
    {x : ByteString × ℕ × ℕ} (h : Removed p s i x) :
    Removed p s (i + 1) (removeStep pred x) := by
  obtain ⟨s', i', j⟩ := x
  obtain ⟨hindex, hle, hlen, hrest, hnext, hkept⟩ := h
  dsimp only at hindex hle hlen hrest hnext hkept
  subst hindex
  have hcons := List.drop_eq_getElem_cons hi
  have hnextd : s.getD (i' + 1) 0 = s'.getD (i' + 1) 0 := by
    have := congrArg (fun l : ByteString => l.getD 1 0) hrest
    simpa [List.getD_eq_getElem?_getD] using this.symm
  have htail : s'.drop (i' + 1) = s.drop (i' + 1) := by
    simpa [List.tail_drop] using congrArg List.tail hrest
  -- the byte that was read, and where the next one is copied to
  obtain ⟨j', hj', hle', hkept'⟩ : ∃ j', (if pred s' i' then j + 1 else j) = j' ∧ j' ≤ i' + 1 ∧
      s'.take j' ++ filterTails p (s.drop (i' + 1)) = filterTails p s := by
    have hp : pred s' i' = p (s.drop i') := by rw [hpred, hrest]
    rw [hcons, filterTails, ← hcons, ← hp] at hkept
    cases hc : pred s' i' with
    | false => exact ⟨j, rfl, by omega, by simpa [hc] using hkept⟩
    | true =>
      refine ⟨j + 1, rfl, by omega, ?_⟩
      have hget := hnext (by omega)
      rw [List.getD_eq_getElem?_getD, List.getElem?_eq_getElem hi, Option.getD_some] at hget
      rw [List.take_add_one, hget]
      simpa [hc] using hkept
  unfold removeStep
  simp only [hj']
  by_cases heq : i' + 1 = j'
  · rw [if_neg (not_not.mpr heq)]
    refine ⟨rfl, hle', hlen, htail, fun hlt => ?_, hkept'⟩
    rw [hnextd, ← heq, List.getD_eq_getElem?_getD,
      List.getElem?_eq_getElem (show i' + 1 < s'.length by dsimp only at hlt; omega)]
    rfl
  · rw [if_pos heq]
    refine ⟨rfl, hle', by simpa using hlen, ?_, fun hlt => ?_, ?_⟩
    · rw [List.drop_set_of_lt (by omega), htail]
    · rw [List.getElem?_set_self (by omega), hnextd]
    · rw [List.take_set_of_le le_rfl, hkept']

theorem remove_indexed_eq (hpred : ∀ s i, pred s i = p (s.drop i)) (s : ByteString) :
    remove_indexed s pred = filterTails p s := by
  have hrun : ∀ i ≤ s.length, Removed p s i ((removeStep pred)^[i] (s, 0, 0)) := by
    intro i
    induction i with
    | zero =>
      intro _
      refine ⟨rfl, le_rfl, rfl, rfl, fun h => ?_, rfl⟩
      cases s with
      | nil => exact absurd h (lt_irrefl 0)
      | cons c s => rfl
    | succ i ih =>
      intro hi
      rw [Function.iterate_succ_apply']
      exact (ih (by omega)).step hpred (by omega)
  have := (hrun s.length le_rfl).kept
  rw [List.drop_length, filterTails, List.append_nil] at this
  exact this

/-! Escapes. -/

theorem keepEscape_eq (s : ByteString) (i : ℕ) : keepEscape s i = EscapeAt (s.drop i) := by
  have hget : ∀ k, s.getD (i + k) 0 = (s.drop i).getD k 0 := fun k => by
    simp [List.getD_eq_getElem?_getD]
  have hlen : (s.drop i).length = s.length - i := List.length_drop
  unfold keepEscape
  rw [hget 1, hget 2, show s.getD i 0 = (s.drop i).getD 0 0 from hget 0]
  cases hd : s.drop i with
  | nil => simp [EscapeAt]
  | cons c t =>
    rw [hd, List.length_cons] at hlen
    by_cases hc : c = 27
    · cases t with
      | nil =>
        have hle : s.length ≤ i + 1 := by simp at hlen; omega
        simp [EscapeAt, isSequence, hc, hle]
      | cons d t =>
        have hlt : ¬ s.length ≤ i + 1 := by simp at hlen; omega
        cases t with
        | nil =>
          have hle : ¬ i + 2 < s.length := by simp at hlen; omega
          simp [EscapeAt, isSequence, hc, hlt, hle]
        | cons e t =>
          have hlt' : i + 2 < s.length := by simp at hlen; omega
          simp [EscapeAt, isSequence, hc, hlt, hlt']
    · simp [EscapeAt, hc]

theorem isLetter_ne (h : isLetter c) : c ≠ 27 := by
  rintro rfl
  exact absurd h (by decide)

theorem filterTails_eq_self (h : ∀ t, t <:+ s → t ≠ [] → p t) : filterTails p s = s := by
  induction s with
  | nil => rfl
  | cons c s ih =>
    rw [filterTails, if_pos (h _ List.suffix_rfl (List.cons_ne_nil c s)),
      ih fun t ht => h t (ht.trans (List.suffix_cons c s))]

theorem filterTails_cons_of_ne (h : c ≠ 27) (s : ByteString) :
    filterTails EscapeAt (c :: s) = c :: filterTails EscapeAt s := by
  rw [filterTails, if_pos]
  simp [EscapeAt, h]

/-- A kept escape character keeps what it stands before. -/
theorem escapeAt_filterTails (h : EscapeAt (c :: s)) :
    EscapeAt (c :: filterTails EscapeAt s) := by
  obtain hc | hseq : c ≠ 27 ∨ isSequence s := by simpa [EscapeAt] using h
  · simp [EscapeAt, hc]
  · suffices isSequence (filterTails EscapeAt s) by simp [EscapeAt, this]
    cases s with
    | nil => exact absurd hseq (by decide)
    | cons d s =>
      rw [isSequence] at hseq
      split_ifs at hseq with hd
      · cases s with
        | nil => exact absurd hseq (by decide)
        | cons e s =>
          have he : isLetter e := by simpa using hseq
          rw [hd, filterTails_cons_of_ne (by decide), filterTails_cons_of_ne (isLetter_ne he)]
          simpa [isSequence] using he
      · rw [filterTails_cons_of_ne (isLetter_ne hseq)]
        simpa [isSequence, hd] using hseq

theorem escapes_filterTails (s : ByteString) (ht : t <:+ filterTails EscapeAt s) :
    EscapeAt t := by
  induction s with
  | nil =>
    rw [List.suffix_nil.mp ht]
    rfl
  | cons c s ih =>
    unfold filterTails at ht
    split_ifs at ht with hc
    · obtain rfl | ht := List.suffix_cons_iff.mp ht
      · exact escapeAt_filterTails hc
      · exact ih ht
    · exact ih ht

theorem mem_filterTails (h : c ∈ filterTails p s) : c ∈ s := by
  induction s with
  | nil => exact h
  | cons d s ih =>
    unfold filterTails at h
    split_ifs at h
    · cases h with
      | head => exact List.mem_cons_self
      | tail _ h => exact List.mem_cons_of_mem d (ih h)
    · exact List.mem_cons_of_mem d (ih h)

/-! The whole function. -/

theorem sanitize_eq (str : ByteString) (keep_escapes : Bool) :
    sanitize_untrusted str keep_escapes =
      if keep_escapes then
        filterTails EscapeAt ((str.takeWhile (· ≠ 0)).filter fun c => !isFiltered c)
      else ((str.takeWhile (· ≠ 0)).filter fun c => !isFiltered c).filter (· ≠ 27) := by
  unfold sanitize_untrusted
  cases keep_escapes with
  | false => rfl
  | true => exact remove_indexed_eq keepEscape_eq _

theorem mem_passes (h : c ∈ (s.takeWhile (· ≠ 0)).filter fun c => !isFiltered c) :
    c ≠ 0 ∧ isFiltered c = false := by
  obtain ⟨hmem, hf⟩ := List.mem_filter.mp h
  exact ⟨by simpa using List.mem_takeWhile_imp hmem, by simpa using hf⟩

theorem sanitized_sanitize (str : ByteString) (keep_escapes : Bool) :
    Sanitized keep_escapes (sanitize_untrusted str keep_escapes) := by
  rw [sanitize_eq]
  cases keep_escapes with
  | false =>
    refine ⟨fun c hc => mem_passes (List.mem_filter.mp hc).1, fun hc => ?_⟩
    simpa using (List.mem_filter.mp hc).2
  | true => exact ⟨fun c hc => mem_passes (mem_filterTails hc), fun t => escapes_filterTails _⟩

theorem Sanitized.sanitize_eq_self {keep_escapes : Bool} (h : Sanitized keep_escapes s) :
    sanitize_untrusted s keep_escapes = s := by
  have htake : s.takeWhile (· ≠ 0) = s :=
    List.takeWhile_eq_self_iff.mpr fun c hc => by simpa using (h.chars c hc).1
  have hfilter : (s.filter fun c => !isFiltered c) = s :=
    List.filter_eq_self.mpr fun c hc => by simpa using (h.chars c hc).2
  rw [sanitize_eq, htake, hfilter]
  cases keep_escapes with
  | false =>
    refine List.filter_eq_self.mpr fun c hc => ?_
    have hne : c ≠ 27 := fun h27 => h.escapes (h27 ▸ hc)
    simpa using hne
  | true => exact filterTails_eq_self fun t ht _ => h.escapes t ht

/-- Whatever the text: the result is sanitized and no second pass changes it, and a text that is
sanitized is returned as it is. -/
theorem sanitize_untrusted_spec (str : ByteString) (keep_escapes : Bool) :
    Sanitized keep_escapes (sanitize_untrusted str keep_escapes) ∧
      sanitize_untrusted (sanitize_untrusted str keep_escapes) keep_escapes =
        sanitize_untrusted str keep_escapes ∧
      (Sanitized keep_escapes str → sanitize_untrusted str keep_escapes = str) :=
  have h := sanitized_sanitize str keep_escapes
  ⟨h, h.sanitize_eq_self, Sanitized.sanitize_eq_self⟩

/-- Neither an escape before a digit nor one before another escape is kept. -/
example : sanitize_untrusted [27, 49, 27, 27, 40, 99, 41, 7, 27] true = [49, 27, 40, 99, 41] := by
  decide

end Freeminer.Util
