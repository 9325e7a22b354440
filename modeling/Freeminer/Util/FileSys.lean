import Freeminer.Lib.Delimited
import Freeminer.Util.Serialize

/-! Paths as text (`filesys.cpp`), where `/` is the delimiter and upper and lower case differ. -/

namespace Freeminer.Util

open Lib

def isDelim (c : UInt8) : Bool := c == 47

/-! What the paths mean. -/

/-- Repeated delimiters are collapsed. -/
def collapse : ByteString → ByteString
  | [] => []
  | c :: s => if isDelim c ∧ s.head?.any isDelim then collapse s else c :: collapse s

/-- The components once repeated delimiters are collapsed and trailing ones dropped; that of an
absolute path before its first delimiter is empty. -/
def components (s : ByteString) : List ByteString := ((collapse s).rdropWhile isDelim).splitOn 47

/-- The components that are not empty. -/
def names (s : ByteString) : List ByteString := (s.splitOn 47).filter (· ≠ [])

/-- The components are gone through with a stack of directories, the deepest one first; nothing
where they lead above the root. -/
def resolve (stack : List ByteString) : List ByteString → Option (List ByteString)
  | [] => some stack.reverse
  | c :: cs =>
    if c = bytes "." then resolve stack cs
    else if c = bytes ".." then if stack = [] then none else resolve stack.tail cs
    else resolve (c :: stack) cs

/-! `PathStartsWith` -/

/-- A delimiter or the end. -/
def atEnd (s : ByteString) : Bool := s.head?.all isDelim

/-- Equal characters up to a delimiter or the end of one of the two. -/
def skipEqual : ByteString → ByteString → Option (ByteString × ByteString)
  | c :: path, d :: pre =>
    if c ≠ d then none
    else if !atEnd path && !atEnd pre then skipEqual path pre else some (path, pre)
  | _, _ => none

/-- The loop, with what is left of the path and of the prefix. -/
def startsWithLoop : ℕ → ByteString → ByteString → Bool
  | 0, _, _ => false
  | fuel + 1, path, pre =>
    if atEnd path ≠ atEnd pre then false
    else if atEnd path then
      let path := path.dropWhile isDelim
      let pre := pre.dropWhile isDelim
      if pre = [] then true
      else if path = [] then false
      else startsWithLoop fuel path pre
    else
      match skipEqual path pre with
      | none => false
      | some (path, pre) => startsWithLoop fuel path pre

def PathStartsWith (path pre : ByteString) : Bool :=
  if pre = [] then path = [] else startsWithLoop (path.length + 1) path pre

/-! `RemoveRelativePathComponents` -/

/-- Whether a component is removed, and `dotdot_count` after it. -/
def removes (component : ByteString) (dotdot_count : ℕ) : Bool × ℕ :=
  if component = bytes "." then (true, dotdot_count)
  else if component = bytes ".." then (true, dotdot_count + 1)
  else if dotdot_count ≠ 0 then (true, dotdot_count - 1)
  else (false, dotdot_count)

/-- One round of the loop, at `path`, `pos` and `dotdot_count`. -/
def removeRound (x : ByteString × ℕ × ℕ) : ByteString × ℕ × ℕ :=
  let (path, component_with_delim_end, dotdot_count) := x
  let component_end := ((path.take component_with_delim_end).rdropWhile isDelim).length
  let component_start := ((path.take component_end).rdropWhile (!isDelim ·)).length
  let component := (path.take component_end).drop component_start
  let (remove_this_component, dotdot_count) := removes component dotdot_count
  if remove_this_component then
    let pos := ((path.take component_start).rdropWhile isDelim).length
    (if component_start = 0 then path.drop component_with_delim_end
      else path.take pos ++ [47] ++ path.drop component_with_delim_end,
      if 0 < pos then pos + 1 else pos, dotdot_count)
  else (path, component_start, dotdot_count)

/-- `while (pos != 0)`, for at most `fuel` rounds. -/
def removeLoop : ℕ → ByteString × ℕ × ℕ → ByteString × ℕ × ℕ
  | 0, x => x
  | fuel + 1, x => if x.2.1 = 0 then x else removeLoop fuel (removeRound x)

def RemoveRelativePathComponents (path : ByteString) : ByteString :=
  let (path, _, dotdot_count) := removeLoop path.length (path, path.length, 0)
  if 0 < dotdot_count then [] else path.rdropWhile isDelim

/-! Components. -/

variable {c d : UInt8} {s t path pre : ByteString}

theorem splitOn_cons_delim (h : isDelim c) (s : ByteString) :
    (c :: s).splitOn 47 = [] :: s.splitOn 47 := by
  rw [beq_iff_eq.mp h]
  exact List.splitOn_append_cons_self [] s

theorem splitOn_cons_name (h : isDelim c = false) (s : ByteString) :
    (c :: s).splitOn 47 = (s.splitOn 47).modifyHead (c :: ·) := by
  rw [List.splitOn_cons_eq_if_modifyHead, if_neg (by simpa [isDelim] using h)]

@[simp] theorem names_nil : names [] = [] := rfl

theorem names_append (s t : ByteString) : names (s ++ 47 :: t) = names s ++ names t := by
  rw [names, List.splitOn_append_cons_self, List.filter_append, names, names]

theorem names_cons_delim (h : isDelim c) (s : ByteString) : names (c :: s) = names s := by
  rw [beq_iff_eq.mp h]
  exact names_append [] s

theorem names_dropWhile (s : ByteString) : names (s.dropWhile isDelim) = names s := by
  induction s with
  | nil => rfl
  | cons c s ih =>
    cases h : isDelim c with
    | true => rw [List.dropWhile_cons_of_pos h, names_cons_delim h, ih]
    | false => rw [List.dropWhile_cons_of_neg (by simp [h])]

theorem components_cons_name (h : isDelim c = false) (s : ByteString) :
    components (c :: s) = (components s).modifyHead (c :: ·) := by
  rw [components, collapse, if_neg (by simp [h]), rdropWhile_cons, if_neg (by simp [h]),
    splitOn_cons_name h, components]

theorem components_eq (s : ByteString) :
    components s = (s.splitOn 47).headD [] :: (s.splitOn 47).tail.filter (· ≠ []) := by
  induction s with
  | nil => rfl
  | cons c s ih =>
    cases hc : isDelim c with
    | false =>
      obtain ⟨w, ws, hw⟩ := List.exists_cons_of_ne_nil (List.splitOn_ne_nil 47 s)
      rw [components_cons_name hc, ih, splitOn_cons_name hc, hw]
      rfl
    | true =>
      rw [splitOn_cons_delim hc]
      change components (c :: s) = [] :: names s
      cases s with
      | nil => simp [components, collapse, hc, rdropWhile_cons]
      | cons d s =>
        cases hd : isDelim d with
        | true =>
          rw [splitOn_cons_delim hd] at ih
          rw [components, collapse, if_pos (by simp [hc, hd]), ← components, ih, names_cons_delim hd]
          rfl
        | false =>
          obtain ⟨w, ws, hw⟩ := List.exists_cons_of_ne_nil (List.splitOn_ne_nil 47 s)
          have hname : names (d :: s) = components (d :: s) := by
            rw [ih, names, splitOn_cons_name hd, hw]
            simp
          have hne : (collapse (d :: s)).rdropWhile isDelim ≠ [] := by
            rw [collapse, if_neg (by simp [hd]), rdropWhile_cons, if_neg (by simp [hd])]
            exact List.cons_ne_nil _ _
          rw [components, collapse, if_neg (by simp [hd]), rdropWhile_cons, if_neg (by simp [hne]),
            splitOn_cons_delim hc, hname, components]

theorem components_cons_delim (h : isDelim c) (s : ByteString) :
    components (c :: s) = [] :: names s := by
  rw [components_eq, splitOn_cons_delim h]
  rfl

/-- Where a name starts, no component is empty. -/
theorem names_of_name (h : isDelim c = false) (s : ByteString) :
    names (c :: s) = components (c :: s) := by
  obtain ⟨w, ws, hw⟩ := List.exists_cons_of_ne_nil (List.splitOn_ne_nil 47 s)
  rw [components_eq, names, splitOn_cons_name h, hw]
  simp

/-! The prefix test. -/

theorem components_of_atEnd (h : atEnd s) : components s = [] :: names s := by
  cases s with
  | nil => rfl
  | cons c s =>
    have hc : isDelim c := by simpa [atEnd] using h
    rw [components_cons_delim hc, names_cons_delim hc]

theorem components_of_not_atEnd (h : ¬ atEnd s) :
    ∃ c s', s = c :: s' ∧ isDelim c = false := by
  cases s with
  | nil => exact absurd rfl h
  | cons c s => exact ⟨c, s, rfl, by simpa [atEnd] using h⟩

theorem cons_prefix_cons_name {c d : UInt8} (hc : isDelim c = false) (hd : isDelim d = false)
    (s t : ByteString) : components (d :: t) <+: components (c :: s) ↔
      d = c ∧ components t <+: components s := by
  rw [components_cons_name hc, components_cons_name hd, components_eq s, components_eq t]
  simp only [List.modifyHead_cons, List.cons_prefix_cons, List.cons.injEq, and_assoc]

theorem skipEqual_spec (hpath : ¬ atEnd path) (hpre : ¬ atEnd pre) :
    (skipEqual path pre).elim (¬ components pre <+: components path) fun x =>
      x.1.length < path.length ∧
        (components pre <+: components path ↔ components x.2 <+: components x.1) := by
  induction path generalizing pre with
  | nil => exact absurd rfl hpath
  | cons c path ih =>
    obtain ⟨d, pre, rfl, hd⟩ := components_of_not_atEnd hpre
    have hc : isDelim c = false := by simpa [atEnd] using hpath
    rw [cons_prefix_cons_name hc hd, skipEqual]
    split_ifs with hne hmore
    · simp [Ne.symm hne]
    · obtain ⟨hp, hq⟩ : ¬ atEnd path ∧ ¬ atEnd pre := by simpa using hmore
      have := ih hp hq
      rw [not_not] at hne
      cases hs : skipEqual path pre with
      | none => simpa [hs, hne] using this
      | some x =>
        rw [hs] at this
        exact ⟨this.1.trans (Nat.lt_succ_self _), by simpa [hne] using this.2⟩
    · rw [not_not] at hne
      exact ⟨Nat.lt_succ_self _, by simp [hne]⟩

/-- A component that is not empty is no prefix of an empty one, nor the other way round. -/
theorem not_prefix_of_ne (h : atEnd path ≠ atEnd pre) : ¬ components pre <+: components path := by
  have hname : ∀ s, ¬ atEnd s → ∃ c w ws, components s = (c :: w) :: ws := by
    intro s hs
    obtain ⟨c, s, rfl, hc⟩ := components_of_not_atEnd hs
    exact ⟨c, _, _, by rw [components_cons_name hc, components_eq, List.modifyHead_cons]⟩
  by_cases hpath : atEnd path
  · obtain ⟨c, w, ws, hw⟩ := hname pre (by simpa [hpath] using h)
    simp [components_of_atEnd hpath, hw]
  · obtain ⟨c, w, ws, hw⟩ := hname path hpath
    rw [components_of_atEnd (s := pre) (by simpa [hpath] using h), hw]
    simp

theorem startsWithLoop_iff {fuel : ℕ} (hfuel : path.length < fuel) :
    startsWithLoop fuel path pre ↔ components pre <+: components path := by
  induction fuel generalizing path pre with
  | zero => exact absurd hfuel (Nat.not_lt_zero _)
  | succ fuel ih =>
    rw [startsWithLoop]
    by_cases hne : atEnd path ≠ atEnd pre
    · rw [if_pos hne]
      exact iff_of_false Bool.false_ne_true (not_prefix_of_ne hne)
    rw [if_neg hne, not_not] at *
    by_cases hpath : atEnd path
    · rw [if_pos hpath, components_of_atEnd hpath, components_of_atEnd (hne ▸ hpath),
        List.cons_prefix_cons, ← names_dropWhile path, ← names_dropWhile pre]
      have hfirst := fun l : ByteString => List.head?_dropWhile_not isDelim l
      have hpre := hfirst pre
      have hrest := hfirst path
      cases hq : pre.dropWhile isDelim with
      | nil => simp
      | cons d q =>
        have hd : isDelim d = false := by simpa [hq] using hpre
        rw [names_of_name hd]
        cases hp : path.dropWhile isDelim with
        | nil => simp [components_eq]
        | cons c p =>
          have hc : isDelim c = false := by simpa [hp] using hrest
          -- at least one delimiter was skipped
          have hlt : (c :: p).length < path.length := by
            cases path with
            | nil => exact absurd hp (by simp)
            | cons x path =>
              rw [← hp, List.dropWhile_cons_of_pos (by simpa [atEnd] using hpath)]
              exact Nat.lt_succ_of_le (List.dropWhile_suffix isDelim).length_le
          rw [names_of_name hc]
          simpa using @ih (c :: p) (d :: q) (by omega)
    · have hspec := skipEqual_spec hpath (hne ▸ hpath)
      rw [if_neg hpath]
      cases hs : skipEqual path pre with
      | none => simpa [hs] using hspec
      | some x =>
        rw [hs] at hspec
        exact (ih (by have := hspec.1; omega)).trans hspec.2.symm

theorem PathStartsWith_iff (path : ByteString) (hpre : pre ≠ []) :
    PathStartsWith path pre ↔ components pre <+: components path := by
  rw [PathStartsWith, if_neg hpre, startsWithLoop_iff (Nat.lt_succ_self _)]

/-! The components from the last one on. -/

def backStep (component : ByteString) (x : ℕ × List ByteString) : ℕ × List ByteString :=
  ((removes component x.1).2, if (removes component x.1).1 then x.2 else component :: x.2)

theorem resolve_eq (cs stack : List ByteString) :
    resolve stack cs = if (cs.foldr backStep (0, [])).1 ≤ stack.length then
      some ((stack.drop (cs.foldr backStep (0, [])).1).reverse ++ (cs.foldr backStep (0, [])).2)
      else none := by
  induction cs generalizing stack with
  | nil => simp [resolve]
  | cons c cs ih =>
    rw [resolve, List.foldr_cons]
    generalize hx : cs.foldr backStep (0, []) = x at ih
    obtain ⟨n, kept⟩ := x
    dsimp only at ih
    unfold backStep removes
    by_cases hdot : c = bytes "."
    · simp only [if_pos hdot, ih, if_true]
    by_cases hdotdot : c = bytes ".."
    · simp only [if_neg hdot, if_pos hdotdot]
      cases stack with
      | nil => simp
      | cons d stack => simp [ih]
    · simp only [if_neg hdot, if_neg hdotdot, ih]
      cases n with
      | zero => simp
      | succ n => simp

theorem names_delims (h : ∀ c ∈ s, isDelim c) (t : ByteString) : names (s ++ t) = names t := by
  induction s with
  | nil => rfl
  | cons c s ih =>
    rw [List.cons_append, names_cons_delim (h c List.mem_cons_self),
      ih fun d hd => h d (List.mem_cons_of_mem c hd)]

/-- A name, and what follows it after a delimiter. -/
theorem names_word (hs : s ≠ []) (hname : ∀ c ∈ s, isDelim c = false) (ht : atEnd t) :
    names (s ++ t) = s :: names t := by
  have hmem : (47 : UInt8) ∉ s := fun h => absurd (hname 47 h) (by decide)
  cases t with
  | nil =>
    rw [List.append_nil, names, List.splitOn_eq_singleton hmem]
    simp [hs]
  | cons c t =>
    have hc : isDelim c := by simpa [atEnd] using ht
    rw [names_cons_delim hc, beq_iff_eq.mp hc, names_append, names,
      List.splitOn_eq_singleton hmem]
    simp [hs]

theorem atEnd_delims (h : ∀ c ∈ s, isDelim c) : atEnd s := by
  cases s with
  | nil => rfl
  | cons c s => simpa [atEnd] using h c List.mem_cons_self

/-- What stands before the elements at the end that have a property. -/
theorem rdropWhile_cases (p : UInt8 → Bool) (l : ByteString) :
    ∃ front back, l = front ++ back ∧ l.rdropWhile p = front ∧ (∀ c ∈ back, p c) ∧
      (front = [] ∨ ∃ front' c, front = front' ++ [c] ∧ p c = false) := by
  refine ⟨l.rdropWhile p, l.rtakeWhile p, List.rdropWhile_append_rtakeWhile.symm, rfl,
    fun c => List.mem_rtakeWhile_imp, ?_⟩
  by_cases h : l.rdropWhile p = []
  · exact .inl h
  · exact .inr ⟨_, _, (List.dropLast_append_getLast h).symm,
      by simpa using List.rdropWhile_last_not p l h⟩

/-- The loop between two rounds: to the left of the position nothing has changed. -/
structure Between (init : ByteString) (left right : ByteString) (dotdot_count : ℕ) : Prop where
  resolves : (names left).foldr backStep (dotdot_count, names right) =
    (names init).foldr backStep (0, [])
  first : (left ++ right).head? = some 47
  apart : atEnd right ∨ ∃ l, left = l ++ [47]
  root : (∀ c ∈ left, isDelim c) → left ≠ [] → dotdot_count = 0

theorem removeRound_eq {dirs w ds up : ByteString} (right : ByteString) (n : ℕ)
    (hend : (dirs ++ w ++ ds).rdropWhile isDelim = dirs ++ w)
    (hstart : (dirs ++ w).rdropWhile (!isDelim ·) = dirs) (hup : dirs.rdropWhile isDelim = up) :
    removeRound (dirs ++ w ++ ds ++ right, (dirs ++ w ++ ds).length, n) =
      if (removes w n).1 then (if dirs = [] then right else up ++ [47] ++ right,
        if 0 < up.length then up.length + 1 else up.length, (removes w n).2)
      else (dirs ++ w ++ ds ++ right, dirs.length, (removes w n).2) := by
  have hfront : (dirs ++ w ++ ds ++ right).take (dirs ++ w).length = dirs ++ w := by
    rw [List.append_assoc (dirs ++ w)]
    exact List.take_left
  have hdirs : (dirs ++ w ++ ds ++ right).take dirs.length = dirs := by
    rw [List.append_assoc (dirs ++ w), List.append_assoc dirs]
    exact List.take_left
  have htake : (dirs ++ w ++ ds ++ right).take up.length = up := by
    obtain ⟨t, ht⟩ := hup ▸ List.rdropWhile_prefix isDelim dirs
    rw [← ht, List.append_assoc up, List.append_assoc up, List.append_assoc up]
    exact List.take_left
  unfold removeRound
  simp only [List.take_left, List.drop_left, hend, hfront, hstart, hdirs, hup, htake,
    List.length_eq_zero_iff]

theorem names_append_delims (s : ByteString) (h : ∀ c ∈ t, isDelim c) : names (s ++ t) = names s := by
  cases t with
  | nil => rw [List.append_nil]
  | cons c t =>
    rw [beq_iff_eq.mp (h c List.mem_cons_self), names_append,
      ← List.append_nil t, names_delims (fun d hd => h d (List.mem_cons_of_mem c hd)), names_nil,
      List.append_nil]

theorem Between.round {init left right : ByteString} {n : ℕ} (h : Between init left right n)
    (hleft : left ≠ []) : ∃ left' right' n', left'.length < left.length ∧
      removeRound (left ++ right, left.length, n) = (left' ++ right', left'.length, n') ∧
      Between init left' right' n' := by
  obtain ⟨front, ds, hfront, hend, hds, hword⟩ := rdropWhile_cases isDelim left
  obtain ⟨dirs, w, hdirs, hstart, hw, hdelim⟩ := rdropWhile_cases (!isDelim ·) front
  obtain ⟨up, ds', hup, hrup, hds', hup'⟩ := rdropWhile_cases isDelim dirs
  subst hfront hdirs
  rw [removeRound_eq right n hend hstart hrup]
  have hw' : ∀ c ∈ w, isDelim c = false := fun c hc => by simpa using hw c hc
  by_cases hnil : w = []
  · -- nothing but delimiters
    subst hnil
    rw [List.append_nil] at *
    obtain rfl : dirs = [] := by
      obtain hnil | ⟨l, c, heq, hc⟩ := hword
      · exact hnil
      · obtain hnil | ⟨l', d, heq', hd⟩ := hdelim
        · exact hnil
        · have := (List.append_inj' (heq.symm.trans heq') rfl).2
          simp only [List.cons.injEq, and_true] at this
          rw [this] at hc
          simp [hc] at hd
    rw [List.nil_append] at *
    obtain rfl := h.root hds hleft
    refine ⟨[], ds ++ right, 0, List.length_pos_iff.mpr hleft, rfl, ?_, h.first, .inl ?_,
      fun _ hne => absurd rfl hne⟩
    · rw [names_delims hds, ← h.resolves, ← List.append_nil ds, names_delims hds]
    · cases ds with
      | nil => exact absurd rfl hleft
      | cons c ds => simpa [atEnd] using hds c List.mem_cons_self
  · obtain ⟨d', rfl⟩ : ∃ d', dirs = d' ++ [47] := by
      obtain hd | ⟨l, c, hl, hc⟩ := hdelim
      · -- the path starts with a delimiter
        exfalso
        obtain ⟨c, w, rfl⟩ := List.exists_cons_of_ne_nil hnil
        have := h.first
        simp only [hd, List.nil_append, List.cons_append, List.head?_cons, Option.some_inj] at this
        subst this
        exact absurd (hw' 47 List.mem_cons_self) (by decide)
      · have hc' : c = 47 := by simpa [isDelim] using hc
        exact ⟨l, by rw [hl, hc']⟩
    have hnames : names (d' ++ [47] ++ w ++ ds) = names (d' ++ [47]) ++ [w] := by
      have hw := names_word hnil hw' (atEnd_delims hds)
      rw [← List.append_nil ds, names_delims hds, List.append_nil] at hw
      rw [List.append_assoc d', List.append_assoc d', List.append_assoc [47], List.singleton_append,
        names_append, names_append, hw, names_nil, List.append_nil]
    have hresolves := h.resolves
    rw [hnames, List.foldr_append, List.foldr_cons, List.foldr_nil, backStep] at hresolves
    dsimp only at hresolves
    rw [if_neg (show ¬ d' ++ [47] = [] by simp)]
    cases hrem : (removes w n).1 with
    | false =>
      have hzero : n = 0 ∧ (removes w n).2 = 0 := by
        unfold removes at hrem ⊢
        split_ifs at hrem ⊢ with h1 h2 h3
        simpa using h3
      rw [if_neg (by simp), hzero.2]
      refine ⟨d' ++ [47], w ++ (ds ++ right), 0, ?_, by simp, ?_, ?_, .inr ⟨d', rfl⟩,
        fun _ _ => rfl⟩
      · have := List.length_pos_iff.mpr hnil
        simp only [List.length_append]
        omega
      · rw [hrem, hzero.2] at hresolves
        rw [← hresolves, if_neg (by simp), names_word hnil hw', names_delims hds]
        cases ds with
        | nil =>
          refine h.apart.elim id fun ⟨l, hl⟩ => ?_
          have hlast := congrArg List.getLast? hl
          obtain ⟨w', c, rfl⟩ := (List.eq_nil_or_concat' w).resolve_left hnil
          rw [List.append_nil, ← List.append_assoc, List.getLast?_concat, List.getLast?_concat,
            Option.some_inj] at hlast
          exact absurd (hw' c (by simp)) (by simp [hlast, isDelim])
        | cons c ds => simpa [atEnd] using hds c List.mem_cons_self
      · simpa using h.first
    | true =>
      rw [if_pos rfl]
      rw [hrem, if_pos rfl] at hresolves
      have hnames' : names (d' ++ [47]) = names up := by rw [hup, names_append_delims up hds']
      rw [hnames'] at hresolves
      obtain rfl | ⟨l, c, rfl, hc⟩ := hup'
      · refine ⟨[], 47 :: right, (removes w n).2, ?_, by simp, ?_, rfl, .inl rfl,
          fun _ hne => absurd rfl hne⟩
        · simp only [List.length_nil, List.length_append, List.length_singleton]
          omega
        · rw [← hresolves, names_cons_delim (by decide)]
      · refine ⟨l ++ [c] ++ [47], right, (removes w n).2, ?_, by simp, ?_, ?_, .inr ⟨_, rfl⟩, fun hall _ => ?_⟩
        · have hne : ds' ≠ [] := by
            rintro rfl
            have := (List.append_inj' (hup.trans (List.append_nil _)) rfl).2
            simp only [List.cons.injEq, and_true] at this
            exact absurd hc (by simp [← this, isDelim])
          have hlen := congrArg List.length hup
          have := List.length_pos_iff.mpr hne
          have := List.length_pos_iff.mpr hnil
          simp only [List.length_append, List.length_singleton] at hlen ⊢
          omega
        · rw [names_append_delims _ (by simp [isDelim]), hresolves]
        · have hfirst := h.first
          rw [hup] at hfirst
          simpa [List.head?_append] using hfirst
        · exact absurd (hall c (by simp)) (by simp [hc])

theorem removeLoop_ends {init left right : ByteString} {n fuel : ℕ}
    (h : Between init left right n) (hfuel : left.length ≤ fuel) :
    ∃ right' n', removeLoop fuel (left ++ right, left.length, n) = (right', 0, n') ∧
      Between init [] right' n' := by
  induction fuel generalizing left right n with
  | zero =>
    obtain rfl := List.length_eq_zero_iff.mp (Nat.le_zero.mp hfuel)
    exact ⟨right, n, rfl, h⟩
  | succ fuel ih =>
    rw [removeLoop]
    by_cases hleft : left = []
    · subst hleft
      exact ⟨right, n, rfl, h⟩
    · obtain ⟨left', right', n', hlt, hround, h'⟩ := h.round hleft
      rw [if_neg (by simpa using hleft), hround]
      exact ih h' (by omega)

theorem names_eq_nil_iff : names s = [] ↔ ∀ c ∈ s, isDelim c := by
  induction s with
  | nil => simp
  | cons c s ih =>
    cases hc : isDelim c with
    | true => simp [names_cons_delim hc, ih, hc]
    | false => simp [names_of_name hc, components_eq, hc]

theorem removeRelative_spec (habs : path.head? = some 47) :
    (RemoveRelativePathComponents path = [] ↔
      resolve [] (names path) = none ∨ resolve [] (names path) = some []) ∧
    (RemoveRelativePathComponents path ≠ [] →
      ∃ dirs, resolve [] (names path) = some dirs ∧
        components (RemoveRelativePathComponents path) = [] :: dirs) := by
  have hstart : Between path path [] 0 :=
    ⟨rfl, by rwa [List.append_nil], .inl rfl, fun _ _ => rfl⟩
  obtain ⟨right, n, hloop, hend⟩ := removeLoop_ends hstart le_rfl
  rw [List.append_nil] at hloop
  have hresolve := resolve_eq (names path) []
  rw [← hend.resolves] at hresolve
  simp only [names_nil, List.foldr_nil, List.length_nil, Nat.le_zero, List.drop_nil,
    List.reverse_nil, List.nil_append] at hresolve
  have hfirst := hend.first
  unfold RemoveRelativePathComponents
  rw [hloop, hresolve]
  cases n with
  | succ n => simp
  | zero =>
    obtain ⟨front, ds, hright, hdrop, hds, hlast⟩ := rdropWhile_cases isDelim right
    subst hright
    rw [List.nil_append] at hfirst
    simp only [Nat.lt_irrefl, if_false, if_true, hdrop, reduceCtorEq, false_or,
      Option.some_inj, names_append_delims front hds]
    constructor
    · rw [names_eq_nil_iff]
      obtain rfl | ⟨l, c, rfl, hc⟩ := hlast
      · simp
      · simp [hc]
    · intro hne
      obtain ⟨c, front, rfl⟩ := List.exists_cons_of_ne_nil hne
      rw [List.cons_append, List.head?_cons, Option.some_inj] at hfirst
      exact ⟨_, rfl, by rw [components_cons_delim (by simp [hfirst, isDelim]),
        names_cons_delim (by simp [hfirst, isDelim])]⟩

/-- An absolute path is resolved on a stack, up to repeated and trailing delimiters, with the empty
string where it climbs above the root or ends there; and a path starts with another one exactly if
its components do. -/
theorem paths_spec :
    (∀ path : ByteString, path.head? = some 47 →
      (RemoveRelativePathComponents path = [] ↔
        resolve [] (names path) = none ∨ resolve [] (names path) = some []) ∧
      (RemoveRelativePathComponents path ≠ [] →
        ∃ dirs, resolve [] (names path) = some dirs ∧
          components (RemoveRelativePathComponents path) = [] :: dirs)) ∧
    ∀ path pre : ByteString, pre ≠ [] →
      (PathStartsWith path pre ↔ components pre <+: components path) :=
  ⟨fun _ => removeRelative_spec, fun path _ => PathStartsWith_iff path⟩

example : RemoveRelativePathComponents (bytes "/a/b/c/.././../d/../e/f/..//") = bytes "/a/e" := by
  decide

end Freeminer.Util
