import Freeminer.Settings.Settings

/-! What the parser makes of a line that was printed, and of a text that shows some settings: line
by line their values, with the text of a group in it. -/

namespace Freeminer

open Lib

section Lines

variable {e name v line : ByteString} {lines body rest : List ByteString}

theorem trim_eq_strip (s : ByteString) : trim s = strip isSpace s := rfl

theorem trim_trim (s : ByteString) : trim (trim s) = trim s := strip_strip isSpace s

theorem isSpace_of_checkNameValid (h : checkNameValid name = true) :
    ∀ c ∈ name, isSpace c = false := by
  intro c hc
  have := List.all_eq_true.mp (Bool.and_eq_true_iff.mp h).2 c hc
  simpa using this

theorem ne_of_checkNameValid (h : checkNameValid name = true) : ∀ c ∈ name, c ≠ 61 ∧ c ≠ 35 := by
  intro c hc
  have := List.all_eq_true.mp (Bool.and_eq_true_iff.mp h).1 c hc
  simp only [ne_eq, decide_not, Bool.and_eq_true, Bool.not_eq_true', decide_eq_false_iff_not] at this
  exact ⟨this.1.1.1.1, this.2⟩

/-- A printed line without its tabs and what is blank at its end. -/
theorem trim_printed (hname : checkNameValid name = true) (tabDepth : ℕ) (v : ByteString) :
    ∃ pre, trim (Settings.tabs tabDepth ++ name ++ bytes " = " ++ v) =
        pre ++ 61 :: (32 :: v).rdropWhile isSpace ∧
      (∀ c ∈ pre, c ≠ 61 ∧ c ≠ 35) ∧ trim pre = name := by
  have hdrop : (Settings.tabs tabDepth ++ name ++ bytes " = " ++ v).dropWhile isSpace =
      (name ++ bytes " = " ++ v).dropWhile isSpace := by
    rw [List.append_assoc, List.append_assoc, List.append_assoc, Settings.tabs]
    induction tabDepth with
    | zero => rfl
    | succ n ih =>
      rw [List.replicate_succ, List.cons_append, List.dropWhile_cons_of_pos (by decide), ih]
  have h61 : isSpace 61 = false := by decide
  have heq : bytes " = " = [32, 61, 32] := by decide
  rw [trim_eq_strip, strip, hdrop, heq]
  cases name with
  | nil =>
    refine ⟨[], ?_, fun c hc => absurd hc List.not_mem_nil, rfl⟩
    change (61 :: 32 :: v).rdropWhile isSpace = _
    exact rdropWhile_append_cons isSpace h61 [] (32 :: v)
  | cons c cs =>
    have hc : isSpace c = false := isSpace_of_checkNameValid hname c List.mem_cons_self
    refine ⟨c :: cs ++ [32], ?_, fun x hx => ?_, ?_⟩
    · rw [List.append_assoc, List.cons_append, List.dropWhile_cons_of_neg (by simp [hc])]
      have := rdropWhile_append_cons isSpace h61 (c :: cs ++ [32]) (32 :: v)
      simpa using this
    · cases List.mem_append.mp hx with
      | inl h => exact ne_of_checkNameValid hname x h
      | inr h =>
        rw [List.mem_singleton.mp h]
        decide
    · have hname' := strip_eq_self isSpace (isSpace_of_checkNameValid hname)
      rw [trim_eq_strip, ← strip_rdropWhile, List.rdropWhile_concat_pos _ _ _ (by decide),
        strip_rdropWhile, hname']

theorem parseConfigObject_printed (he : 61 ∉ e) (hname : checkNameValid name = true)
    (tabDepth : ℕ) (v : ByteString) :
    parseConfigObject e (Settings.tabs tabDepth ++ name ++ bytes " = " ++ v) =
      if trim v = [123] then .group name
      else if trim v = quotes then .multiline name
      else .kvPair name (trim v) := by
  obtain ⟨pre, htrim, hpre, hname⟩ := trim_printed hname tabDepth v
  have hval : trim ((32 :: v).rdropWhile isSpace) = trim v := by
    rw [trim_eq_strip, strip_rdropWhile, strip_cons isSpace (by decide), ← trim_eq_strip]
  have hcut : cut 61 (pre ++ 61 :: (32 :: v).rdropWhile isSpace) =
      (pre, some ((32 :: v).rdropWhile isSpace)) :=
    cut_append_cons (fun h => (hpre 61 h).1 rfl) _
  have hne : pre ++ 61 :: (32 :: v).rdropWhile isSpace ≠ e := by
    intro h
    exact he (h ▸ List.mem_append_right _ List.mem_cons_self)
  unfold parseConfigObject
  rw [htrim]
  cases hp : pre ++ 61 :: (32 :: v).rdropWhile isSpace with
  | nil => simp at hp
  | cons c cs =>
    have hc : c ≠ 35 := by
      cases pre with
      | nil => exact (List.cons.inj hp).1 ▸ (by decide)
      | cons x pre => exact (List.cons.inj hp).1 ▸ (hpre x List.mem_cons_self).2
    rw [hp] at hcut hne
    simp only [if_neg hc, if_neg hne, hcut, hval, hname]

theorem parseConfigObject_end (tabDepth : ℕ) :
    parseConfigObject [125] (Settings.tabs tabDepth ++ [125]) = .endTag := by
  have htrim : trim (Settings.tabs tabDepth ++ [125]) = [125] := by
    induction tabDepth with
    | zero => decide
    | succ n ih =>
      rw [trim_eq_strip] at ih ⊢
      rw [Settings.tabs, List.replicate_succ, List.cons_append, strip_cons isSpace (by decide)]
      exact ih
  unfold parseConfigObject
  rw [htrim]
  decide

theorem multilineLoop_append (h : quotes ∉ body) (rest : List ByteString) :
    multilineLoop (body ++ quotes :: rest) = (body.flatMap (· ++ [10]), rest) := by
  induction body with
  | nil => simp [multilineLoop]
  | cons line body ih =>
    rw [List.mem_cons, not_or] at h
    rw [List.cons_append, multilineLoop, if_neg (Ne.symm h.1), ih h.2]
    simp

theorem getMultiline_append (h : quotes ∉ body) (rest : List ByteString) :
    getMultiline (body ++ quotes :: rest) = ((body.flatMap (· ++ [10])).dropLast, rest) := by
  rw [getMultiline, multilineLoop_append h]

theorem length_multilineLoop (lines : List ByteString) :
    (multilineLoop lines).2.length ≤ lines.length := by
  induction lines with
  | nil => exact Nat.le_refl 0
  | cons line lines ih =>
    unfold multilineLoop
    split_ifs
    · exact Nat.le_succ _
    · exact Nat.le_succ_of_le ih

/-- No line of an accepted value ends it. -/
theorem quotes_notMem_splitOn (h : checkValueValid v = true) : quotes ∉ v.splitOn 10 := by
  intro hmem
  obtain ⟨pre, post, hsplit⟩ := List.append_of_mem hmem
  have hv : v = pre.flatMap (· ++ [10]) ++ (quotes ++
      (10 :: post.flatMap (· ++ [10])).dropLast) := by
    have hall := flatMap_splitOn (10 : UInt8) v
    rw [hsplit, List.flatMap_append, List.flatMap_cons] at hall
    have hlast := congrArg List.dropLast hall
    rw [List.dropLast_concat] at hlast
    rw [← hlast, List.dropLast_append_of_ne_nil (by simp), List.append_assoc,
      List.dropLast_append_of_ne_nil (by simp)]
    rfl
  simp only [checkValueValid, Bool.not_eq_true', Bool.or_eq_false_iff, decide_eq_false_iff_not] at h
  cases pre using List.reverseRecOn with
  | nil =>
    apply h.1
    rw [hv]
    rfl
  | append_singleton pre l =>
    apply h.2
    rw [List.flatMap_append, List.flatMap_singleton] at hv
    refine ⟨pre.flatMap (· ++ [10]) ++ l, (10 :: post.flatMap (· ++ [10])).dropLast, ?_⟩
    rw [hv]
    simp

end Lines

namespace Settings

section Maps

variable {s t g : Settings} {name m v : ByteString} {entry : SettingsEntry}

@[simp] theorem entries_cons (name : ByteString) (entry : SettingsEntry) (rest : Settings) :
    (cons name entry rest).entries = (name, entry) :: rest.entries := by
  cases entry <;> rfl

theorem find_cons (name : ByteString) (entry : SettingsEntry) (rest : Settings) (m : ByteString) :
    (cons name entry rest).find m = if m = name then some entry else rest.find m := by
  unfold find
  rw [entries_cons, List.lookup_cons]
  by_cases h : m = name
  · simp [h]
  · have hb : (m == name) = false := by simp [h]
    rw [hb, if_neg h]

/-- A map with an entry before the others. -/
theorem consInduction {P : Settings → Prop} (nil : P nil)
    (cons : ∀ name entry rest, P rest → P (cons name entry rest)) : ∀ s, P s
  | .nil => nil
  | .value name v rest => cons name (.value v) rest (consInduction nil cons rest)
  | .group name g rest => cons name (.group g) rest (consInduction nil cons rest)

theorem put_cons (name : ByteString) (entry : SettingsEntry) (m : ByteString) (e : SettingsEntry)
    (rest : Settings) : (cons m e rest).put name entry =
      if m = name then cons name entry rest else cons m e (rest.put name entry) := by
  cases e <;> rfl

theorem find_put (name : ByteString) (entry : SettingsEntry) (s : Settings) (m : ByteString) :
    (s.put name entry).find m = if m = name then some entry else s.find m := by
  induction s using consInduction with
  | nil => exact find_cons name entry nil m
  | cons n e rest ih =>
    rw [put_cons]
    by_cases hn : n = name
    · subst hn
      rw [if_pos rfl, find_cons, find_cons]
      split_ifs <;> rfl
    · rw [if_neg hn, find_cons, find_cons, ih]
      by_cases hm : m = n
      · subst hm
        rw [if_pos rfl, if_neg hn, if_pos rfl]
      · rw [if_neg hm, if_neg hm]

theorem find_eq_none (h : name ∉ s.names) : s.find name = none := by
  apply List.lookup_eq_none_iff.mpr
  intro p hp
  have : name ≠ p.1 := fun heq => h (heq ▸ List.mem_map_of_mem hp)
  simpa using this

theorem mem_entries_of_find (h : s.find name = some entry) : (name, entry) ∈ s.entries := by
  induction s using consInduction with
  | nil => cases h
  | cons n e rest ih =>
    rw [find_cons] at h
    rw [entries_cons, List.mem_cons]
    split_ifs at h with hn
    · obtain rfl := Option.some.inj h
      exact Or.inl (by rw [hn])
    · exact Or.inr (ih h)

theorem find_of_mem (hnodup : s.names.Nodup) (h : (name, entry) ∈ s.entries) :
    s.find name = some entry := by
  induction s using consInduction with
  | nil => exact absurd h List.not_mem_nil
  | cons n e rest ih =>
    rw [names, entries_cons, List.map_cons, List.nodup_cons] at hnodup
    rw [entries_cons, List.mem_cons] at h
    rw [find_cons]
    cases h with
    | inl heq =>
      obtain ⟨rfl, rfl⟩ := Prod.mk.inj heq
      rw [if_pos rfl]
    | inr hmem =>
      have hin : name ∈ rest.entries.map Prod.fst := List.mem_map_of_mem hmem
      have hne : name ≠ n := by
        intro heq
        exact hnodup.1 (heq ▸ hin)
      rw [if_neg hne]
      exact ih hnodup.2 hmem

def entryAt : Option SettingsEntry → List ByteString → Option (Option ByteString)
  | none, _ => none
  | some (.value v), path => if path = [] then some (some v) else none
  | some (.group g), path => g.lookup path

theorem lookup_cons (s : Settings) (name : ByteString) (path : List ByteString) :
    s.lookup (name :: path) = entryAt (s.find name) path := by
  rw [lookup]
  cases s.find name with
  | none => rfl
  | some entry => cases entry <;> rfl

theorem same_iff : Same s t ↔ ∀ name path, entryAt (s.find name) path = entryAt (t.find name) path := by
  constructor
  · intro h name path
    rw [← lookup_cons, ← lookup_cons]
    exact h (name :: path)
  · intro h path
    cases path with
    | nil => rfl
    | cons name path =>
      rw [lookup_cons, lookup_cons]
      exact h name path

end Maps

section Parse

variable {s t g : Settings} {e name v line : ByteString} {lines rest : List ByteString}

theorem length_parseLoop (fuel : ℕ) (e : ByteString) (s : Settings) (lines : List ByteString) :
    (parseLoop fuel e s lines).2.2.length ≤ lines.length := by
  induction fuel generalizing e s lines with
  | zero => exact Nat.le_refl _
  | succ fuel ih =>
    cases lines with
    | nil => exact Nat.le_refl 0
    | cons line lines =>
      unfold parseLoop
      cases parseConfigObject e line with
      | none => exact Nat.le_succ_of_le (ih e s lines)
      | invalid => exact Nat.le_succ_of_le (ih e s lines)
      | comment => exact Nat.le_succ_of_le (ih e s lines)
      | kvPair name v => exact Nat.le_succ_of_le (ih e _ lines)
      | endTag => exact Nat.le_succ _
      | group name =>
        have hg := ih [125] nil lines
        dsimp only
        split
        · rename_i heq
          rw [heq] at hg
          exact Nat.le_succ_of_le hg
        · rename_i heq
          rw [heq] at hg
          exact (ih e _ _).trans (Nat.le_succ_of_le hg)
      | multiline name =>
        exact (ih e _ _).trans (Nat.le_succ_of_le (length_multilineLoop lines))

/-- More fuel than lines does not matter. -/
theorem parseLoop_fuel {n m : ℕ} (hn : lines.length < n) (hm : lines.length < m) (e : ByteString)
    (s : Settings) : parseLoop n e s lines = parseLoop m e s lines := by
  induction n generalizing m e s lines with
  | zero => exact absurd hn (Nat.not_lt_zero _)
  | succ n ih =>
    cases m with
    | zero => exact absurd hm (Nat.not_lt_zero _)
    | succ m =>
      cases lines with
      | nil => rfl
      | cons line lines =>
        have hn := Nat.lt_of_succ_lt_succ hn
        have hm := Nat.lt_of_succ_lt_succ hm
        unfold parseLoop
        cases parseConfigObject e line with
        | none => exact ih hn hm e s
        | invalid => exact ih hn hm e s
        | comment => exact ih hn hm e s
        | kvPair name v => exact ih hn hm e _
        | endTag => rfl
        | group name =>
          have hlen := length_parseLoop n [125] nil lines
          have heq := ih hn hm [125] nil
          dsimp only
          rw [← heq]
          cases hr : parseLoop n [125] nil lines with
          | mk ok r =>
            rw [hr] at hlen
            cases ok with
            | false => rfl
            | true => exact ih (lt_of_le_of_lt hlen hn) (lt_of_le_of_lt hlen hm) e _
        | multiline name =>
          have hlen := length_multilineLoop lines
          exact ih (lt_of_le_of_lt hlen hn) (lt_of_le_of_lt hlen hm) e _

theorem parseConfigLines_nil (e : ByteString) (s : Settings) :
    parseConfigLines e s [] = (e.isEmpty, s, []) := rfl

theorem parseConfigLines_cons (e : ByteString) (s : Settings) (line : ByteString)
    (lines : List ByteString) : parseConfigLines e s (line :: lines) =
      match parseConfigObject e line with
      | .none => parseConfigLines e s lines
      | .invalid => parseConfigLines e s lines
      | .comment => parseConfigLines e s lines
      | .kvPair name v => parseConfigLines e (s.put name (.value v)) lines
      | .endTag => (true, s, lines)
      | .group name =>
        match parseConfigLines [125] nil lines with
        | (false, _, rest) => (false, s, rest)
        | (true, g, rest) => parseConfigLines e (s.put name (.group g)) rest
      | .multiline name =>
        parseConfigLines e (s.put name (.value (getMultiline lines).1)) (getMultiline lines).2 := by
  have hself : ∀ e s, parseLoop (line :: lines).length e s lines = parseConfigLines e s lines :=
    fun e s => rfl
  have hrest : ∀ e s rest, rest.length ≤ lines.length →
      parseLoop (line :: lines).length e s rest = parseConfigLines e s rest := by
    intro e s rest hle
    exact parseLoop_fuel (Nat.lt_succ_of_le hle) (Nat.lt_succ_self _) e s
  rw [parseConfigLines, parseLoop]
  cases parseConfigObject e line with
  | none => rfl
  | invalid => rfl
  | comment => rfl
  | kvPair name v => rfl
  | endTag => rfl
  | group name =>
    have hlen := length_parseLoop (line :: lines).length [125] nil lines
    dsimp only
    rw [hself] at hlen ⊢
    cases hr : parseConfigLines [125] nil lines with
    | mk ok r =>
      rw [hr] at hlen
      cases ok with
      | false => rfl
      | true => exact hrest e _ _ hlen
  | multiline name => exact hrest e _ _ (length_multilineLoop lines)

end Parse

/-- The lines are a text of the settings `s`, where `e` is the end tag: each shows what `s` has for
a name, and is ignored otherwise. The names are those that are shown. -/
inductive Shows : Settings → ByteString → List ByteString → List ByteString → Prop
  | nil {s : Settings} {e : ByteString} : Shows s e [] []
  | skip {s : Settings} {e line : ByteString} {names lines : List ByteString}
    (hline : parseConfigObject e line = .none ∨ parseConfigObject e line = .invalid ∨
      parseConfigObject e line = .comment)
    (hlines : Shows s e names lines) : Shows s e names (line :: lines)
  | value {s : Settings} {e line name v : ByteString} {names lines : List ByteString}
    (hline : parseConfigObject e line = .kvPair name v) (hfind : s.find name = some (.value v))
    (hlines : Shows s e names lines) : Shows s e (name :: names) (line :: lines)
  | multiline {s : Settings} {e line name v : ByteString} {names body lines : List ByteString}
    (hline : parseConfigObject e line = .multiline name) (hbody : quotes ∉ body)
    (hv : (body.flatMap (· ++ [10])).dropLast = v) (hfind : s.find name = some (.value v))
    (hlines : Shows s e names lines) : Shows s e (name :: names) (line :: (body ++ quotes :: lines))
  | group {s g : Settings} {e line endLine name : ByteString}
    {names inner body lines : List ByteString}
    (hline : parseConfigObject e line = .group name) (hfind : s.find name = some (.group g))
    (hbody : Shows g [125] inner body) (hall : g.names ⊆ inner)
    (hend : parseConfigObject [125] endLine = .endTag) (hlines : Shows s e names lines) :
    Shows s e (name :: names) (line :: (body ++ endLine :: lines))

section Shows

variable {s t g : Settings} {e name v line : ByteString} {names lines rest : List ByteString}

/-- Parsing a text of `s` gives what it shows of `s`, and keeps the rest. -/
theorem parse_shows (h : Shows s e names lines) : ∀ t rest, ∃ t',
    parseConfigLines e t (lines ++ rest) = parseConfigLines e t' rest ∧
      ∀ m path, entryAt (t'.find m) path =
        if m ∈ names then entryAt (s.find m) path else entryAt (t.find m) path := by
  induction h with
  | nil => exact fun t rest => ⟨t, rfl, fun m path => rfl⟩
  | @skip s e line names lines hline _ ih =>
    intro t rest
    obtain ⟨t', hp, hf⟩ := ih t rest
    refine ⟨t', ?_, hf⟩
    rw [List.cons_append, parseConfigLines_cons, ← hp]
    rcases hline with h | h | h <;> rw [h]
  | @value s e line name v names lines hline hfind _ ih =>
    intro t rest
    obtain ⟨t', hp, hf⟩ := ih (t.put name (.value v)) rest
    refine ⟨t', ?_, fun m path => ?_⟩
    · rw [List.cons_append, parseConfigLines_cons, hline, ← hp]
    · rw [hf, find_put]
      by_cases hm : m = name <;> by_cases hin : m ∈ names <;> simp [hm, hin, hfind]
  | @multiline s e line name v names body lines hline hbody hv hfind _ ih =>
    intro t rest
    obtain ⟨t', hp, hf⟩ := ih (t.put name (.value v)) rest
    refine ⟨t', ?_, fun m path => ?_⟩
    · rw [List.cons_append, List.append_assoc, List.cons_append, parseConfigLines_cons, hline]
      dsimp only
      rw [getMultiline_append hbody, hv, ← hp]
    · rw [hf, find_put]
      by_cases hm : m = name <;> by_cases hin : m ∈ names <;> simp [hm, hin, hfind]
  | @group s g e line endLine name names inner body lines hline hfind _ hall hend _ ihg ih =>
    intro t rest
    obtain ⟨g', hg, hfg⟩ := ihg nil (endLine :: (lines ++ rest))
    have hsame : Same g' g := by
      apply same_iff.mpr
      intro m path
      rw [hfg]
      split_ifs with hin
      · rfl
      · rw [find_eq_none fun h => hin (hall h)]
        rfl
    obtain ⟨t', hp, hf⟩ := ih (t.put name (.group g')) rest
    refine ⟨t', ?_, fun m path => ?_⟩
    · rw [List.cons_append, List.append_assoc, List.cons_append, parseConfigLines_cons, hline]
      dsimp only
      rw [hg, parseConfigLines_cons, hend]
      exact hp
    · rw [hf, find_put]
      by_cases hm : m = name
      · subst hm
        have : entryAt (some (.group g')) path = entryAt (some (.group g)) path := hsame path
        by_cases hin : m ∈ names <;> simp [hin, hfind, this]
      · by_cases hin : m ∈ names <;> simp [hm, hin]

theorem parse_of_shows {text : ByteString} (h : Shows s [] names lines) (hall : s.names ⊆ names)
    (htext : text.splitOn 10 = lines ++ [[]]) : (parse text).1 = true ∧ Same (parse text).2 s := by
  obtain ⟨t, hp, hf⟩ := parse_shows h nil [[]]
  have hend : parseConfigLines [] t [[]] = (true, t, []) := rfl
  rw [hend] at hp
  unfold parse
  rw [htext, hp]
  refine ⟨rfl, same_iff.mpr fun m path => ?_⟩
  rw [hf]
  split_ifs with hin
  · rfl
  · rw [find_eq_none fun h => hin (hall h)]
    rfl

end Shows

end Settings

end Freeminer
