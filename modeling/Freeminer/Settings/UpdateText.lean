import Freeminer.Settings.Printed

/-! `Settings::updateConfigObject`: the text of a file brought up to date with the settings of an
object, line by line. -/

namespace Freeminer

open Lib

namespace Settings

structure UpdateState where
  /-- The lines that are left in `is`. -/
  rest : List ByteString
  os : ByteString := []
  presentEntries : List ByteString := []
  line : ByteString := []
  wasModified : Bool := false
  endFound : Bool := false

def printEntry (name : ByteString) (entry : SettingsEntry) (tabDepth : ℕ) : ByteString :=
  (cons name entry nil).writeLines tabDepth

def updateValue (s : Settings) (tabDepth : ℕ) (multiline : Bool) (name v : ByteString)
    (st : UpdateState) : UpdateState :=
  match s.find name with
  | none => { st with wasModified := true }
  | some entry =>
    if entry ≠ .value v then
      { st with
        os := st.os ++ printEntry name entry tabDepth
        wasModified := true
        presentEntries := name :: st.presentEntries }
    else
      { st with
        os := st.os ++ st.line ++ [10] ++ if multiline then v ++ 10 :: quotes ++ [10] else []
        presentEntries := name :: st.presentEntries }

def missing (presentEntries : List ByteString) : Settings → Settings
  | nil => nil
  | value name v rest =>
    if presentEntries.contains name then missing presentEntries rest
    else value name v (missing presentEntries rest)
  | group name g rest =>
    if presentEntries.contains name then missing presentEntries rest
    else group name g (missing presentEntries rest)

def flush (st : UpdateState) : ByteString :=
  st.os ++ if st.line ≠ [] ∧ st.rest = [] then [10] else []

/-- What follows the loop: the entries that are missing, and the end tag. -/
def finish (endTag : ByteString) (s : Settings) (tabDepth : ℕ) (st : UpdateState) : UpdateState :=
  let left := s.missing st.presentEntries
  { st with
    os := flush st ++ left.writeLines tabDepth ++ if endTag = [] then [] else endTag ++ [10]
    wasModified := st.wasModified || left ≠ nil || (endTag ≠ [] && !st.endFound) }

/-- A group of the file; `inner` is what updating a group does with the lines that follow. What is
written for a group that the object does not have is dropped. -/
def updateGroup (s : Settings) (tabDepth : ℕ) (name : ByteString) (st : UpdateState)
    (inner : Settings → UpdateState) : UpdateState :=
  match s.find name with
  | some (.group g) =>
    { st with
      rest := (inner g).rest
      os := st.os ++ st.line ++ [10] ++ (inner g).os
      wasModified := st.wasModified || (inner g).wasModified
      presentEntries := name :: st.presentEntries }
  | none => { st with rest := (inner nil).rest, wasModified := true }
  | some (.value v) =>
    { st with
      os := st.os ++ printEntry name (.value v) tabDepth
      wasModified := true
      presentEntries := name :: st.presentEntries }

/-- What is done at a line that is not the end tag, when it has been read. -/
def updateStep (s : Settings) (tabDepth : ℕ) (st : UpdateState) (inner : Settings → UpdateState) :
    SettingsParseEvent → UpdateState
  | .multiline name =>
    updateValue s tabDepth true name (getMultiline st.rest).1
      { st with rest := (getMultiline st.rest).2 }
  | .kvPair name v => updateValue s tabDepth false name v st
  | .group name => updateGroup s tabDepth name st inner
  | _ => { st with os := st.os ++ st.line ++ if st.rest = [] then [] else [10] }

/-- The loop; `fuel` is more than the lines. -/
def updateLoop : ℕ → ByteString → Settings → ℕ → UpdateState → UpdateState
  | 0, _, _, _, st => st
  | fuel + 1, endTag, s, tabDepth, st =>
    match st.rest with
    | [] => st
    | line :: lines =>
      if parseConfigObject endTag line = .endTag then { st with line, rest := lines, endFound := true }
      else
        updateLoop fuel endTag s tabDepth
          (updateStep s tabDepth { st with line, rest := lines }
            (fun g => finish [125] g (tabDepth + 1)
              (updateLoop fuel [125] g (tabDepth + 1) { rest := lines }))
            (parseConfigObject endTag line))

def updateLines (endTag : ByteString) (s : Settings) (tabDepth : ℕ) (st : UpdateState) :
    UpdateState :=
  updateLoop (st.rest.length + 1) endTag s tabDepth st

/-- Settings without an end tag, and a whole file: whether it was modified, and the new text. -/
def updateConfigObject (s : Settings) (text : ByteString) : Bool × ByteString :=
  let r := finish [] s 0 (updateLines [] s 0 { rest := text.splitOn 10 })
  (r.wasModified, r.os)

end Settings

/-! The text of an update shows the settings of the object, and updating it again changes
nothing. -/

namespace Settings

section Fuel

variable {e : ByteString} {s : Settings} {st : UpdateState} {tabDepth : ℕ}

@[simp] theorem updateValue_rest (s : Settings) (tabDepth : ℕ) (multiline : Bool)
    (name v : ByteString) (st : UpdateState) :
    (updateValue s tabDepth multiline name v st).rest = st.rest := by
  unfold updateValue
  cases s.find name with
  | none => rfl
  | some entry =>
    dsimp only
    split_ifs <;> rfl

@[simp] theorem finish_rest (e : ByteString) (s : Settings) (tabDepth : ℕ) (st : UpdateState) :
    (finish e s tabDepth st).rest = st.rest := rfl

theorem getMultiline_suffix (lines : List ByteString) : (getMultiline lines).2 <:+ lines := by
  unfold getMultiline
  induction lines with
  | nil => exact List.suffix_refl []
  | cons line lines ih =>
    unfold multilineLoop
    split_ifs
    · exact List.suffix_cons line lines
    · exact ih.trans (List.suffix_cons line lines)

theorem updateStep_suffix (st : UpdateState) {inner : Settings → UpdateState}
    (hinner : ∀ g, (inner g).rest <:+ st.rest) (s : Settings) (tabDepth : ℕ)
    (event : SettingsParseEvent) : (updateStep s tabDepth st inner event).rest <:+ st.rest := by
  cases event with
  | kvPair name v =>
    rw [updateStep, updateValue_rest]
  | multiline name =>
    rw [updateStep, updateValue_rest]
    exact getMultiline_suffix st.rest
  | group name =>
    rw [updateStep, updateGroup]
    cases s.find name with
    | none => exact hinner nil
    | some entry =>
      cases entry with
      | value v => exact List.suffix_refl _
      | group g => exact hinner g
  | _ => exact List.suffix_refl _

/-- The lines that are left are lines that were left before. -/
theorem updateLoop_suffix (fuel : ℕ) : ∀ (e : ByteString) (s : Settings) (tabDepth : ℕ)
    (st : UpdateState), (updateLoop fuel e s tabDepth st).rest <:+ st.rest := by
  induction fuel with
  | zero => exact fun e s tabDepth st => List.suffix_refl _
  | succ fuel ih =>
    intro e s tabDepth st
    unfold updateLoop
    cases hr : st.rest with
    | nil =>
      dsimp only
      rw [hr]
    | cons line lines =>
      have hcons := List.suffix_cons line lines
      dsimp only
      split_ifs
      · exact hcons
      · refine (ih _ _ _ _).trans (List.IsSuffix.trans ?_ hcons)
        apply updateStep_suffix { st with line, rest := lines }
        exact fun g => ih [125] g (tabDepth + 1) { rest := lines }

theorem finish_suffix (fuel : ℕ) (g : Settings) (tabDepth : ℕ) (lines : List ByteString) :
    (finish [125] g (tabDepth + 1)
      (updateLoop fuel [125] g (tabDepth + 1) { rest := lines })).rest <:+ lines :=
  updateLoop_suffix fuel [125] g (tabDepth + 1) { rest := lines }

/-- More fuel than lines does not matter. -/
theorem updateLoop_fuel {n m : ℕ} (hn : st.rest.length < n) (hm : st.rest.length < m)
    (e : ByteString) (s : Settings) (tabDepth : ℕ) :
    updateLoop n e s tabDepth st = updateLoop m e s tabDepth st := by
  induction n generalizing m e s tabDepth st with
  | zero => exact absurd hn (Nat.not_lt_zero _)
  | succ n ih =>
    cases m with
    | zero => exact absurd hm (Nat.not_lt_zero _)
    | succ m =>
      unfold updateLoop
      cases hr : st.rest with
      | nil => rfl
      | cons line lines =>
        rw [hr] at hn hm
        have hn := Nat.lt_of_succ_lt_succ hn
        have hm := Nat.lt_of_succ_lt_succ hm
        have hinner : ∀ g, updateLoop n [125] g (tabDepth + 1) { rest := lines } =
            updateLoop m [125] g (tabDepth + 1) { rest := lines } := fun g => ih hn hm _ _ _
        dsimp only
        simp only [hinner]
        split_ifs
        · rfl
        · have hsuffix := fun g => finish_suffix m g tabDepth lines
          have hlen := (updateStep_suffix { st with line, rest := lines } hsuffix s tabDepth
            (parseConfigObject e line)).length_le
          exact ih (lt_of_le_of_lt hlen hn) (lt_of_le_of_lt hlen hm) _ _ _

theorem updateLines_nil (e : ByteString) (s : Settings) (tabDepth : ℕ) (h : st.rest = []) :
    updateLines e s tabDepth st = st := by
  rw [updateLines, updateLoop, h]

/-- What updating a group does with the lines that follow its name. -/
def updateInner (tabDepth : ℕ) (lines : List ByteString) (g : Settings) : UpdateState :=
  finish [125] g (tabDepth + 1) (updateLines [125] g (tabDepth + 1) { rest := lines })

theorem updateInner_suffix (tabDepth : ℕ) (lines : List ByteString) (g : Settings) :
    (updateInner tabDepth lines g).rest <:+ lines := finish_suffix _ g tabDepth lines

theorem updateLines_cons {line : ByteString} {lines : List ByteString} (e : ByteString)
    (s : Settings) (tabDepth : ℕ) (h : st.rest = line :: lines) :
    updateLines e s tabDepth st =
      if parseConfigObject e line = .endTag then { st with line, rest := lines, endFound := true }
      else updateLines e s tabDepth (updateStep s tabDepth { st with line, rest := lines }
        (updateInner tabDepth lines) (parseConfigObject e line)) := by
  have hinner : (fun g => finish [125] g (tabDepth + 1) (updateLoop (line :: lines).length [125] g
      (tabDepth + 1) { rest := lines })) = updateInner tabDepth lines := rfl
  rw [updateLines, h, updateLoop, h]
  dsimp only
  rw [hinner]
  split_ifs
  · rfl
  · have hlen := (updateStep_suffix { st with line, rest := lines }
      (updateInner_suffix tabDepth lines) s tabDepth (parseConfigObject e line)).length_le
    exact updateLoop_fuel (Nat.lt_succ_of_le hlen) (Nat.lt_succ_self _) e s tabDepth

end Fuel

section Shown

variable {e name v : ByteString} {s : Settings} {st : UpdateState} {tabDepth : ℕ}
  {names names' lines lines' : List ByteString}

def unlines (lines : List ByteString) : ByteString := lines.flatMap (· ++ [10])

theorem unlines_append (lines lines' : List ByteString) :
    unlines (lines ++ lines') = unlines lines ++ unlines lines' := List.flatMap_append

theorem Shows.append (h : Shows s e names lines) (h' : Shows s e names' lines') :
    Shows s e (names ++ names') (lines ++ lines') := by
  induction h with
  | nil => exact h'
  | skip hline _ ih => exact .skip hline (ih h')
  | value hline hfind _ ih => exact .value hline hfind (ih h')
  | multiline hline hbody hv hfind _ ih =>
    rw [List.cons_append, List.cons_append, List.append_assoc, List.cons_append]
    exact .multiline hline hbody hv hfind (ih h')
  | group hline hfind hbody hall hend _ _ ih =>
    rw [List.cons_append, List.cons_append, List.append_assoc, List.cons_append]
    exact .group hline hfind hbody hall hend (ih h')

/-- The text `os` is written after `os₀`: lines that show the settings. -/
structure Wrote (s : Settings) (e : ByteString) (os₀ os : ByteString)
    (names lines : List ByteString) : Prop where
  text : os = os₀ ++ unlines lines
  newline : ∀ l ∈ lines, 10 ∉ l
  shows : Shows s e names lines

theorem Wrote.append {os₀ os₁ os₂ : ByteString} (h : Wrote s e os₀ os₁ names lines)
    (h' : Wrote s e os₁ os₂ names' lines') :
    Wrote s e os₀ os₂ (names ++ names') (lines ++ lines') := by
  refine ⟨?_, ?_, h.shows.append h'.shows⟩
  · rw [h'.text, h.text, unlines_append, List.append_assoc]
  · intro l hl
    cases List.mem_append.mp hl with
    | inl hl => exact h.newline l hl
    | inr hl => exact h'.newline l hl

theorem wrote_nil (s : Settings) (e os : ByteString) : Wrote s e os os [] [] :=
  ⟨(List.append_nil os).symm, fun _ hl => absurd hl List.not_mem_nil, .nil⟩

/-- A line that is copied because it shows nothing. -/
theorem wrote_skip {line : ByteString} (os : ByteString) (hnl : 10 ∉ line)
    (hline : parseConfigObject e line = .none ∨ parseConfigObject e line = .invalid ∨
      parseConfigObject e line = .comment) :
    Wrote s e os (os ++ line ++ [10]) [] [line] := by
  refine ⟨?_, fun l hl => List.mem_singleton.mp hl ▸ hnl, .skip hline .nil⟩
  simp [unlines]

theorem wrote_printEntry {entry : SettingsEntry} (he : 61 ∉ e) (hs : s.Valid) (hp : s.AllPlain)
    (hfind : s.find name = some entry) (tabDepth : ℕ) (os : ByteString) :
    ∃ lines, Wrote s e os (os ++ printEntry name entry tabDepth) [name] lines := by
  have hmem := mem_entries_of_find hfind
  obtain ⟨hname, hentry⟩ := (valid_iff.mp hs).2 _ hmem
  have hplain := allPlain_iff.mp hp _ hmem
  have hvalid : (cons name entry nil).Valid :=
    valid_cons.mpr ⟨List.not_mem_nil, hname, hentry, trivial⟩
  have hplain : (cons name entry nil).AllPlain := allPlain_cons.mpr ⟨hplain, trivial⟩
  have hshows := shows_append he hvalid hplain (S := s) (fun p hin => by
    rw [entries_cons, List.mem_cons] at hin
    exact hin.resolve_right List.not_mem_nil ▸ hfind) tabDepth (.nil (e := e))
  rw [List.append_nil, List.append_nil, names_cons] at hshows
  refine ⟨_, ?_, newline_notMem_textLines hvalid tabDepth, hshows⟩
  rw [printEntry, writeLines_eq]
  rfl

/-- What is written for a value of the file. -/
theorem wrote_updateValue (st : UpdateState) (multiline : Bool) (he : 61 ∉ e) (hs : s.Valid)
    (hp : s.AllPlain) (tabDepth : ℕ) (hnl : 10 ∉ st.line)
    (hline : parseConfigObject e st.line =
      if multiline then .multiline name else .kvPair name v) :
    ∃ names lines, Wrote s e st.os (updateValue s tabDepth multiline name v st).os names lines ∧
      (updateValue s tabDepth multiline name v st).presentEntries ⊆ names ++ st.presentEntries := by
  unfold updateValue
  cases hfind : s.find name with
  | none => exact ⟨[], [], wrote_nil s e st.os, List.Subset.refl _⟩
  | some entry =>
    dsimp only
    by_cases heq : entry = .value v
    · subst heq
      rw [if_neg (by simp)]
      refine ⟨[name], ?_⟩
      cases multiline with
      | false =>
        refine ⟨[st.line], ⟨?_, fun l hl => List.mem_singleton.mp hl ▸ hnl,
          .value hline hfind .nil⟩, List.Subset.refl _⟩
        simp [unlines]
      | true =>
        have hv : checkValueValid v = true := ((valid_iff.mp hs).2 _ (mem_entries_of_find hfind)).2
        refine ⟨st.line :: (v.splitOn 10 ++ quotes :: []), ⟨?_, ?_, .multiline hline
          (quotes_notMem_splitOn hv) ?_ hfind .nil⟩, List.Subset.refl _⟩
        · have := flatMap_splitOn (10 : UInt8) v
          simp [unlines, this]
        · intro l hl
          rcases List.mem_cons.mp hl with rfl | hl
          · exact hnl
          · rcases List.mem_append.mp hl with hl | hl
            · exact notMem_of_mem_splitOn hl
            · rw [List.mem_singleton.mp hl]
              decide
        · rw [flatMap_splitOn, List.dropLast_concat]
    · rw [if_pos heq]
      obtain ⟨lines, hw⟩ := wrote_printEntry he hs hp hfind tabDepth st.os
      exact ⟨[name], lines, hw, List.Subset.refl _⟩

theorem missing_cons (names : List ByteString) (name : ByteString) (entry : SettingsEntry)
    (rest : Settings) : missing names (cons name entry rest) =
      if name ∈ names then missing names rest else cons name entry (missing names rest) := by
  cases entry <;> simp [missing, cons]

theorem mem_entries_missing {p : ByteString × SettingsEntry} (s : Settings) :
    p ∈ (missing names s).entries ↔ p ∈ s.entries ∧ p.1 ∉ names := by
  induction s using consInduction with
  | nil => simp [missing, entries]
  | cons n entry rest ih =>
    rw [missing_cons]
    by_cases hn : n ∈ names
    · rw [if_pos hn, ih, entries_cons, List.mem_cons]
      constructor
      · exact fun h => ⟨Or.inr h.1, h.2⟩
      · rintro ⟨rfl | hmem, hnot⟩
        · exact absurd hn hnot
        · exact ⟨hmem, hnot⟩
    · rw [if_neg hn, entries_cons, entries_cons, List.mem_cons, List.mem_cons, ih]
      constructor
      · rintro (rfl | ⟨hmem, hnot⟩)
        · exact ⟨Or.inl rfl, hn⟩
        · exact ⟨Or.inr hmem, hnot⟩
      · rintro ⟨rfl | hmem, hnot⟩
        · exact Or.inl rfl
        · exact Or.inr ⟨hmem, hnot⟩

theorem mem_names_missing (s : Settings) :
    name ∈ (missing names s).names ↔ name ∈ s.names ∧ name ∉ names := by
  simp only [Settings.names, List.mem_map, mem_entries_missing]
  constructor
  · rintro ⟨p, ⟨hp, hnot⟩, rfl⟩
    exact ⟨⟨p, hp, rfl⟩, hnot⟩
  · rintro ⟨⟨p, hp, rfl⟩, hnot⟩
    exact ⟨p, ⟨hp, hnot⟩, rfl⟩

theorem missing_valid (hs : s.Valid) (names : List ByteString) : (missing names s).Valid := by
  induction s using consInduction with
  | nil => trivial
  | cons n entry rest ih =>
    obtain ⟨hn, hname, hentry, hrest⟩ := valid_cons.mp hs
    rw [missing_cons]
    split_ifs
    · exact ih hrest
    · exact valid_cons.mpr ⟨fun hin => hn ((mem_names_missing rest).mp hin).1, hname, hentry,
        ih hrest⟩

theorem missing_allPlain (hp : s.AllPlain) (names : List ByteString) :
    (missing names s).AllPlain := by
  rw [allPlain_iff] at hp ⊢
  exact fun p h => hp p ((mem_entries_missing s).mp h).1

theorem missing_eq_nil (h : s.names ⊆ names) : missing names s = nil := by
  induction s using consInduction with
  | nil => rfl
  | cons n entry rest ih =>
    rw [names_cons, List.cons_subset] at h
    rw [missing_cons, if_pos h.1, ih h.2]

/-- After the missing entries all are shown. -/
theorem wrote_finish (he : 61 ∉ e) (hs : s.Valid) (hp : s.AllPlain)
    (h : Wrote s e [] (flush st) names lines) (hpresent : st.presentEntries ⊆ names) (tabDepth : ℕ) :
    ∃ names' ls, Wrote s e [] (flush st ++ (s.missing st.presentEntries).writeLines tabDepth)
      names' (lines ++ ls) ∧ s.names ⊆ names' := by
  have hfind : ∀ p ∈ (missing st.presentEntries s).entries, s.find p.1 = some p.2 := fun p hin =>
    find_of_mem (valid_iff.mp hs).1 ((mem_entries_missing s).mp hin).1
  have hvalid := missing_valid hs st.presentEntries
  have hshows := shows_append he hvalid (missing_allPlain hp _) hfind tabDepth (.nil (e := e))
  rw [List.append_nil, List.append_nil] at hshows
  have hw : Wrote s e (flush st)
      (flush st ++ (s.missing st.presentEntries).writeLines tabDepth) _ _ :=
    ⟨by rw [writeLines_eq]; rfl, newline_notMem_textLines hvalid tabDepth, hshows⟩
  refine ⟨_, _, h.append hw, fun n hn => ?_⟩
  by_cases hin : n ∈ st.presentEntries
  · exact List.mem_append_left _ (hpresent hin)
  · exact List.mem_append_right _ ((mem_names_missing s).mpr ⟨hn, hin⟩)

structure WroteGroup (g : Settings) (r : UpdateState) (names lines : List ByteString) : Prop where
  wrote : Wrote g [125] [] (unlines lines) names lines
  text : r.os = unlines (lines ++ [[125]])
  all : g.names ⊆ names

/-- A group that the object has, with what updating it writes. -/
theorem wrote_group (st : UpdateState) {r : UpdateState} {g : Settings}
    {inner body : List ByteString} (hnl : 10 ∉ st.line)
    (hline : parseConfigObject e st.line = .group name) (hfind : s.find name = some (.group g))
    (h : WroteGroup g r inner body) :
    Wrote s e st.os (st.os ++ st.line ++ [10] ++ r.os) [name]
      (st.line :: (body ++ [125] :: [])) := by
  have hend : parseConfigObject [125] [125] = .endTag := by decide
  refine ⟨?_, ?_, .group hline hfind h.wrote.shows h.all hend .nil⟩
  · simp [h.text, unlines]
  · intro l hl
    rcases List.mem_cons.mp hl with rfl | hl
    · exact hnl
    · rcases List.mem_append.mp hl with hl | hl
      · exact h.wrote.newline l hl
      · rw [List.mem_singleton.mp hl]
        decide

theorem wrote_updateGroup (st : UpdateState) {inner : Settings → UpdateState} (he : 61 ∉ e)
    (hs : s.Valid) (hp : s.AllPlain) (tabDepth : ℕ) (hnl : 10 ∉ st.line)
    (hline : parseConfigObject e st.line = .group name)
    (hinner : ∀ g, s.find name = some (.group g) → ∃ names lines,
      WroteGroup g (inner g) names lines) :
    ∃ names lines, Wrote s e st.os (updateGroup s tabDepth name st inner).os names lines ∧
      (updateGroup s tabDepth name st inner).presentEntries ⊆ names ++ st.presentEntries := by
  unfold updateGroup
  cases hfind : s.find name with
  | none => exact ⟨[], [], wrote_nil s e st.os, List.Subset.refl _⟩
  | some entry =>
    cases entry with
    | value v =>
      obtain ⟨lines, hw⟩ := wrote_printEntry he hs hp hfind tabDepth st.os
      exact ⟨[name], lines, hw, List.Subset.refl _⟩
    | group g =>
      obtain ⟨inside, body, hwrote⟩ := hinner g hfind
      exact ⟨[name], _, wrote_group st hnl hline hfind hwrote, List.Subset.refl _⟩

/-- A step writes lines that show the settings, except for an end of line at the end of the file. -/
theorem wrote_updateStep (st : UpdateState) {inner : Settings → UpdateState} (he : 61 ∉ e)
    (hs : s.Valid) (hp : s.AllPlain) (tabDepth : ℕ) (hnl : 10 ∉ st.line)
    (hend : parseConfigObject e st.line ≠ .endTag)
    (hinner : ∀ name g, s.find name = some (.group g) → ∃ names lines,
      WroteGroup g (inner g) names lines) :
    ∃ names lines, (updateStep s tabDepth st inner (parseConfigObject e st.line)).presentEntries ⊆
        names ++ st.presentEntries ∧
      (Wrote s e st.os (updateStep s tabDepth st inner (parseConfigObject e st.line)).os names
          lines ∨
        (updateStep s tabDepth st inner (parseConfigObject e st.line)).rest = [] ∧
          Wrote s e st.os (flush (updateStep s tabDepth st inner (parseConfigObject e st.line)))
            names lines) := by
  have hcopy : (parseConfigObject e st.line = .none ∨ parseConfigObject e st.line = .invalid ∨
      parseConfigObject e st.line = .comment) → ∃ names lines,
      st.presentEntries ⊆ names ++ st.presentEntries ∧
      (Wrote s e st.os (st.os ++ st.line ++ if st.rest = [] then [] else [10]) names lines ∨
        st.rest = [] ∧ Wrote s e st.os
          (flush { st with os := st.os ++ st.line ++ if st.rest = [] then [] else [10] })
          names lines) := by
    intro hskip
    have hw := wrote_skip (s := s) st.os hnl hskip
    by_cases hrest : st.rest = []
    · by_cases hempty : st.line = []
      · refine ⟨[], [], List.Subset.refl _, Or.inl ?_⟩
        rw [if_pos hrest, hempty, List.append_nil, List.append_nil]
        exact wrote_nil s e st.os
      · refine ⟨[], [st.line], List.Subset.refl _, Or.inr ⟨hrest, ?_⟩⟩
        simpa [flush, hrest, hempty] using hw
    · refine ⟨[], [st.line], List.Subset.refl _, Or.inl ?_⟩
      rwa [if_neg hrest]
  cases hevent : parseConfigObject e st.line with
  | none => exact hcopy (Or.inl hevent)
  | invalid => exact hcopy (Or.inr (Or.inl hevent))
  | comment => exact hcopy (Or.inr (Or.inr hevent))
  | endTag => exact absurd hevent hend
  | kvPair name v =>
    obtain ⟨names, lines, hw, hpresent⟩ :=
      wrote_updateValue st false he hs hp tabDepth hnl hevent
    exact ⟨names, lines, hpresent, Or.inl hw⟩
  | multiline name =>
    obtain ⟨names, lines, hw, hpresent⟩ := wrote_updateValue
      { st with rest := (getMultiline st.rest).2 } true (v := (getMultiline st.rest).1) he hs hp
      tabDepth hnl hevent
    exact ⟨names, lines, hpresent, Or.inl hw⟩
  | group name =>
    obtain ⟨names, lines, hw, hpresent⟩ :=
      wrote_updateGroup st he hs hp tabDepth hnl hevent (hinner name)
    exact ⟨names, lines, hpresent, Or.inl hw⟩

/-- Updating a group writes what its loop writes, and then what is missing. -/
theorem wroteGroup_updateInner {g : Settings} {rest : List ByteString} (hg : g.Valid)
    (hp : g.AllPlain)
    (h : Wrote g [125] [] (flush (updateLines [125] g (tabDepth + 1) { rest })) names lines)
    (hpresent : (updateLines [125] g (tabDepth + 1) { rest }).presentEntries ⊆ names) :
    ∃ names' ls, WroteGroup g (updateInner tabDepth rest g) names' (lines ++ ls) := by
  obtain ⟨names', ls, hw, hall⟩ := wrote_finish (by decide) hg hp h hpresent (tabDepth + 1)
  refine ⟨names', ls, ⟨⟨rfl, hw.newline, hw.shows⟩, ?_, hall⟩⟩
  rw [unlines_append, ← List.nil_append (unlines (lines ++ ls)), ← hw.text]
  rfl

theorem wrote_flush (s : Settings) (e : ByteString) (st : UpdateState) :
    ∃ lines, Wrote s e st.os (flush st) [] lines := by
  unfold flush
  split_ifs
  · have hw := @wrote_skip e s [] st.os (by simp) (Or.inl rfl)
    rw [List.append_nil] at hw
    exact ⟨[[]], hw⟩
  · rw [List.append_nil]
    exact ⟨[], wrote_nil s e st.os⟩

/-- The whole loop writes lines that show the settings. -/
theorem wrote_updateLines (n : ℕ) : ∀ (e : ByteString) (s : Settings) (tabDepth : ℕ)
    (st : UpdateState), 61 ∉ e → s.Valid → s.AllPlain → (∀ l ∈ st.rest, 10 ∉ l) →
    st.rest.length ≤ n → ∃ names lines,
      Wrote s e st.os (flush (updateLines e s tabDepth st)) names lines ∧
      (updateLines e s tabDepth st).presentEntries ⊆ names ++ st.presentEntries := by
  induction n with
  | zero =>
    intro e s tabDepth st _ _ _ _ hlen
    rw [updateLines_nil e s tabDepth (List.eq_nil_of_length_eq_zero (Nat.le_zero.mp hlen))]
    obtain ⟨lines, hw⟩ := wrote_flush s e st
    exact ⟨[], lines, hw, List.Subset.refl _⟩
  | succ n ih =>
    intro e s tabDepth st he hs hp hnl hlen
    cases hr : st.rest with
    | nil =>
      rw [updateLines_nil e s tabDepth hr]
      obtain ⟨lines, hw⟩ := wrote_flush s e st
      exact ⟨[], lines, hw, List.Subset.refl _⟩
    | cons line lines =>
      rw [hr] at hnl hlen
      have hnl' : ∀ l ∈ lines, 10 ∉ l := fun l hl => hnl l (List.mem_cons_of_mem _ hl)
      have hlen := Nat.le_of_succ_le_succ hlen
      rw [updateLines_cons e s tabDepth hr]
      split_ifs with hend
      · obtain ⟨ls, hw⟩ := wrote_flush s e { st with line, rest := lines, endFound := true }
        exact ⟨[], ls, hw, List.Subset.refl _⟩
      · have hinner : ∀ name g, s.find name = some (.group g) → ∃ names body,
            WroteGroup g (updateInner tabDepth lines g) names body := by
          intro name g hfind
          have hg := ((valid_iff.mp hs).2 _ (mem_entries_of_find hfind)).2
          have hgp := allPlain_iff.mp hp _ (mem_entries_of_find hfind)
          obtain ⟨names, body, hw, hpresent⟩ := ih [125] g (tabDepth + 1) { rest := lines }
            (by decide) hg hgp hnl' hlen
          rw [List.append_nil] at hpresent
          obtain ⟨names, ls, hgroup⟩ := wroteGroup_updateInner hg hgp hw hpresent
          exact ⟨names, _, hgroup⟩
        obtain ⟨names, ls, hpresent, hstep⟩ := wrote_updateStep
          { st with line, rest := lines } he hs hp tabDepth
          (hnl line List.mem_cons_self) hend hinner
        let st' := updateStep s tabDepth { st with line, rest := lines }
          (updateInner tabDepth lines) (parseConfigObject e line)
        rcases hstep with hw | ⟨hrest, hw⟩
        · have hsuffix : st'.rest <:+ lines :=
            updateStep_suffix { st with line, rest := lines }
              (updateInner_suffix tabDepth lines) s tabDepth _
          obtain ⟨names', ls', hw', hpresent'⟩ := ih e s tabDepth st' he hs hp
            (fun l hl => hnl' l (hsuffix.subset hl)) (hsuffix.length_le.trans hlen)
          refine ⟨names ++ names', ls ++ ls', hw.append hw', fun x hx => ?_⟩
          rcases List.mem_append.mp (hpresent' hx) with h | h
          · exact List.mem_append_left _ (List.mem_append_right _ h)
          · rcases List.mem_append.mp (hpresent h) with h | h
            · exact List.mem_append_left _ (List.mem_append_left _ h)
            · exact List.mem_append_right _ h
        · rw [updateLines_nil e s tabDepth hrest]
          exact ⟨names, ls, hw, hpresent⟩

/-- What an update writes is a text of the settings. -/
theorem shows_updateConfigObject (hs : s.Valid) (hp : s.AllPlain) (text : ByteString) :
    ∃ names lines, (s.updateConfigObject text).2.splitOn 10 = lines ++ [[]] ∧
      Shows s [] names lines ∧ s.names ⊆ names := by
  obtain ⟨names, lines, hw, hpresent⟩ := wrote_updateLines _ [] s 0 { rest := text.splitOn 10 }
    (by decide) hs hp (fun l hl => notMem_of_mem_splitOn hl) (Nat.le_refl _)
  rw [List.append_nil] at hpresent
  obtain ⟨names, ls, hw, hall⟩ := wrote_finish (by decide) hs hp hw hpresent 0
  refine ⟨names, lines ++ ls, ?_, hw.shows, hall⟩
  have htext : (s.updateConfigObject text).2 = unlines (lines ++ ls) := by
    rw [← List.nil_append (unlines (lines ++ ls)), ← hw.text]
    exact List.append_nil _
  rw [htext]
  exact splitOn_text hw.newline

end Shown

section Again

variable {e name v line : ByteString} {s g : Settings} {st : UpdateState} {tabDepth : ℕ}
  {names lines rest : List ByteString} {multiline : Bool}

/-- The loop goes on from `st` with the state `st'` at the lines `rest`, with nothing modified and
the names present. -/
structure GoesOn (e : ByteString) (s : Settings) (tabDepth : ℕ) (st : UpdateState)
    (rest names : List ByteString) (st' : UpdateState) : Prop where
  eq : updateLines e s tabDepth st = updateLines e s tabDepth st'
  rest : st'.rest = rest
  modified : st'.wasModified = st.wasModified
  endFound : st'.endFound = st.endFound
  present : names ++ st.presentEntries ⊆ st'.presentEntries

theorem GoesOn.trans {rest₁ names₁ names₂ : List ByteString} {st₁ st₂ : UpdateState}
    (h : GoesOn e s tabDepth st rest₁ names₁ st₁) (h' : GoesOn e s tabDepth st₁ rest names₂ st₂) :
    GoesOn e s tabDepth st rest (names₁ ++ names₂) st₂ := by
  refine ⟨h.eq.trans h'.eq, h'.rest, h'.modified.trans h.modified, h'.endFound.trans h.endFound,
    fun x hx => h'.present ?_⟩
  rw [List.append_assoc, List.mem_append, List.mem_append] at hx
  rcases hx with hx | hx | hx
  · exact List.mem_append_right _ (h.present (List.mem_append_left _ hx))
  · exact List.mem_append_left _ hx
  · exact List.mem_append_right _ (h.present (List.mem_append_right _ hx))

theorem updateValue_same (hfind : s.find name = some (.value v)) (tabDepth : ℕ) (multiline : Bool)
    (st : UpdateState) :
    (updateValue s tabDepth multiline name v st).wasModified = st.wasModified ∧
      (updateValue s tabDepth multiline name v st).endFound = st.endFound ∧
      (updateValue s tabDepth multiline name v st).presentEntries = name :: st.presentEntries := by
  unfold updateValue
  rw [hfind]
  simp

theorem updateInner_same {inner body : List ByteString} {endLine : ByteString}
    (hend : parseConfigObject [125] endLine = .endTag) (hall : g.names ⊆ inner)
    (hbody : ∃ st', GoesOn [125] g (tabDepth + 1) { rest := body ++ endLine :: rest }
      (endLine :: rest) inner st') :
    (updateInner tabDepth (body ++ endLine :: rest) g).rest = rest ∧
      (updateInner tabDepth (body ++ endLine :: rest) g).wasModified = false := by
  obtain ⟨st', heq, hrest, hmod, hend', hpresent⟩ := hbody
  have hleft : missing st'.presentEntries g = nil :=
    missing_eq_nil fun n hn => hpresent (List.mem_append_left _ (hall hn))
  rw [updateInner, heq, updateLines_cons [125] g (tabDepth + 1) hrest, if_pos hend]
  refine ⟨rfl, ?_⟩
  simp [finish, hleft, hmod]

/-- A text that shows the settings is gone through with nothing modified. -/
theorem goesOn_of_shows (h : Shows s e names lines) : ∀ (tabDepth : ℕ) (st : UpdateState)
    (rest : List ByteString), st.rest = lines ++ rest →
    ∃ st', GoesOn e s tabDepth st rest names st' := by
  induction h with
  | nil =>
    intro tabDepth st rest hr
    exact ⟨st, rfl, hr, rfl, rfl, List.Subset.refl _⟩
  | @skip s e line names lines hline _ ih =>
    intro tabDepth st rest hr
    rw [List.cons_append] at hr
    have hne : parseConfigObject e line ≠ .endTag := by
      rcases hline with h | h | h <;> rw [h] <;> simp
    have hstep : GoesOn e s tabDepth st (lines ++ rest) []
        (updateStep s tabDepth { st with line, rest := lines ++ rest }
          (updateInner tabDepth (lines ++ rest)) (parseConfigObject e line)) := by
      refine ⟨by rw [updateLines_cons e s tabDepth hr, if_neg hne], ?_, ?_, ?_, ?_⟩
      all_goals rcases hline with h | h | h <;> rw [h]
      all_goals first | rfl | exact List.Subset.refl _
    obtain ⟨st', hst'⟩ := ih tabDepth _ rest hstep.rest
    exact ⟨st', hstep.trans hst'⟩
  | @value s e line name v names lines hline hfind _ ih =>
    intro tabDepth st rest hr
    obtain ⟨hmod, hend, hpresent⟩ := updateValue_same hfind tabDepth false
      { st with line, rest := lines ++ rest }
    have hstep : GoesOn e s tabDepth st (lines ++ rest) [name]
        (updateValue s tabDepth false name v { st with line, rest := lines ++ rest }) := by
      refine ⟨?_, updateValue_rest .., hmod, hend, ?_⟩
      · rw [updateLines_cons e s tabDepth hr, hline, if_neg (by simp)]
        rfl
      · rw [hpresent]
        exact List.Subset.refl _
    obtain ⟨st', hst'⟩ := ih tabDepth _ rest hstep.rest
    exact ⟨st', hstep.trans hst'⟩
  | @multiline s e line name v names body lines hline hbody hv hfind _ ih =>
    intro tabDepth st rest hr
    have hmulti := getMultiline_append hbody (lines ++ rest)
    rw [hv] at hmulti
    rw [List.cons_append, List.append_assoc, List.cons_append] at hr
    obtain ⟨hmod, hend, hpresent⟩ := updateValue_same hfind tabDepth true
      { st with line, rest := lines ++ rest }
    have hstep : GoesOn e s tabDepth st (lines ++ rest) [name]
        (updateValue s tabDepth true name v { st with line, rest := lines ++ rest }) := by
      refine ⟨?_, updateValue_rest .., hmod, hend, ?_⟩
      · rw [updateLines_cons e s tabDepth hr, hline, if_neg (by simp), updateStep, hmulti]
      · rw [hpresent]
        exact List.Subset.refl _
    obtain ⟨st', hst'⟩ := ih tabDepth _ rest hstep.rest
    exact ⟨st', hstep.trans hst'⟩
  | @group s g e line endLine name names inner body lines hline hfind _ hall hend _ ihg ih =>
    intro tabDepth st rest hr
    rw [List.cons_append, List.append_assoc, List.cons_append] at hr
    obtain ⟨hrest, hmod⟩ := updateInner_same hend hall
      (ihg (tabDepth + 1) { rest := body ++ endLine :: (lines ++ rest) } _ rfl)
    have hstep : GoesOn e s tabDepth st (lines ++ rest) [name]
        (updateGroup s tabDepth name { st with line, rest := body ++ endLine :: (lines ++ rest) }
          (updateInner tabDepth (body ++ endLine :: (lines ++ rest)))) := by
      refine ⟨?_, ?_, ?_, ?_, ?_⟩
      · rw [updateLines_cons e s tabDepth hr, hline, if_neg (by simp)]
        rfl
      · rw [updateGroup, hfind]
        exact hrest
      · rw [updateGroup, hfind]
        dsimp only
        rw [hmod, Bool.or_false]
      · rw [updateGroup, hfind]
      · rw [updateGroup, hfind]
        exact List.Subset.refl _
    obtain ⟨st', hst'⟩ := ih tabDepth _ rest hstep.rest
    exact ⟨st', hstep.trans hst'⟩

/-- A text of the settings is up to date. -/
theorem not_modified_of_shows {text : ByteString} (h : Shows s [] names lines)
    (hall : s.names ⊆ names) (htext : text.splitOn 10 = lines ++ [[]]) :
    (s.updateConfigObject text).1 = false := by
  obtain ⟨st', heq, hrest, hmod, -, hpresent⟩ :=
    goesOn_of_shows h 0 { rest := text.splitOn 10 } [[]] htext
  have hleft : missing st'.presentEntries s = nil :=
    missing_eq_nil fun n hn => hpresent (List.mem_append_left _ (hall hn))
  have hlast : parseConfigObject [] [] = .none := rfl
  rw [updateConfigObject, heq, updateLines_cons [] s 0 hrest, hlast, if_neg (by simp),
    updateLines_nil [] s 0 rfl]
  simp [finish, updateStep, hleft, hmod]

end Again

end Settings

end Freeminer
