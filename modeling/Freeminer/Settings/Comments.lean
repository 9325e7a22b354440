import Freeminer.Settings.UpdateText

/-! The comments of a file stay in their groups when it is updated, and the text it is updated to
has the settings of the object. -/

namespace Freeminer

open Lib

namespace Settings

/-- A line of the file, in the group at a path of names. -/
inductive LineIn : ByteString → List ByteString → List ByteString → ByteString → Prop
  | here {e line : ByteString} {lines : List ByteString} : LineIn e (line :: lines) [] line
  | next {e line c : ByteString} {lines path : List ByteString}
    (hline : ∀ name, parseConfigObject e line ≠ .group name ∧
      parseConfigObject e line ≠ .multiline name) (hend : parseConfigObject e line ≠ .endTag)
    (h : LineIn e lines path c) : LineIn e (line :: lines) path c
  | multiline {e line name c : ByteString} {lines path : List ByteString}
    (hline : parseConfigObject e line = .multiline name)
    (h : LineIn e (getMultiline lines).2 path c) : LineIn e (line :: lines) path c
  | inside {e line name c : ByteString} {lines path : List ByteString}
    (hline : parseConfigObject e line = .group name) (h : LineIn [125] lines path c) :
    LineIn e (line :: lines) (name :: path) c
  | after {e line name c : ByteString} {lines path : List ByteString}
    (hline : parseConfigObject e line = .group name)
    (hend : (parseConfigLines [125] nil lines).1 = true)
    (h : LineIn e (parseConfigLines [125] nil lines).2.2 path c) : LineIn e (line :: lines) path c

def Clear (e : ByteString) (s : Settings) (lines : List ByteString) : Prop :=
  ∀ path line name v, LineIn e lines path line → parseConfigObject [] line = .group name →
    s.lookup (path ++ [name]) ≠ some (some v)

section Events

variable {e name line c : ByteString} {s g : Settings} {lines rest path : List ByteString}

/-- The end tag matters to no group and no comment. -/
theorem parseConfigObject_group (h : parseConfigObject e line = .group name) :
    parseConfigObject [] line = .group name := by
  unfold parseConfigObject at h ⊢
  split at h
  · cases h
  · split_ifs at h
    simp_all

theorem parseConfigObject_comment (h : parseConfigObject [] line = .comment) :
    parseConfigObject e line = .comment := by
  unfold parseConfigObject at h ⊢
  split at h
  · cases h
  · split_ifs at h with hc
    · simp [hc]
    · split at h
      · cases h
      · split_ifs at h

theorem lookup_nil (path : List ByteString) (name : ByteString) :
    nil.lookup (path ++ [name]) = none := by
  cases path <;> rfl

theorem clear_nil (e : ByteString) (lines : List ByteString) : Clear e nil lines := by
  intro path line name v _ _ h
  rw [lookup_nil] at h
  cases h

theorem Clear.inside (h : Clear e s (line :: lines)) (hline : parseConfigObject e line = .group name)
    (hfind : s.find name = some (.group g)) : Clear [125] g lines := by
  intro path c m v hin hc hv
  apply h (name :: path) c m v (.inside hline hin) hc
  rw [List.cons_append, lookup_cons, hfind]
  exact hv

theorem Clear.after (h : Clear e s (line :: lines)) (hline : parseConfigObject e line = .group name)
    (hend : (parseConfigLines [125] nil lines).1 = true) :
    Clear e s (parseConfigLines [125] nil lines).2.2 :=
  fun path c m v hin hc => h path c m v (.after hline hend hin) hc

theorem Clear.ne_value (h : Clear e s (line :: lines))
    (hline : parseConfigObject e line = .group name) (v : ByteString) :
    s.find name ≠ some (.value v) := by
  intro hfind
  apply h [] line name v .here (parseConfigObject_group hline)
  rw [List.nil_append, lookup_cons, hfind]
  rfl

end Events

section Consumed

variable {s : Settings} {st : UpdateState} {tabDepth : ℕ}

/-- An update reads as many lines of a group as the parser. -/
theorem updateLines_rest (n : ℕ) : ∀ (e : ByteString) (s t : Settings) (tabDepth : ℕ)
    (st : UpdateState), e ≠ [] → Clear e s st.rest → st.rest.length ≤ n →
    (parseConfigLines e t st.rest).1 = true →
    (updateLines e s tabDepth st).rest = (parseConfigLines e t st.rest).2.2 := by
  induction n with
  | zero =>
    intro e s t tabDepth st he _ hlen hok
    rw [List.eq_nil_of_length_eq_zero (Nat.le_zero.mp hlen), parseConfigLines_nil] at hok
    exact absurd (List.isEmpty_iff.mp hok) he
  | succ n ih =>
    intro e s t tabDepth st he hclear hlen hok
    cases hr : st.rest with
    | nil =>
      rw [hr, parseConfigLines_nil] at hok
      exact absurd (List.isEmpty_iff.mp hok) he
    | cons line lines =>
      rw [hr] at hlen hok hclear
      have hlen := Nat.le_of_succ_le_succ hlen
      rw [updateLines_cons e s tabDepth hr]
      rw [parseConfigLines_cons] at hok ⊢
      have hnext : (∀ name, parseConfigObject e line ≠ .group name ∧
          parseConfigObject e line ≠ .multiline name) → parseConfigObject e line ≠ .endTag →
          Clear e s lines := fun hline hend path c m v hin =>
        hclear path c m v (.next hline hend hin)
      cases hevent : parseConfigObject e line with
      | none =>
        rw [hevent] at hok hnext
        exact ih e s t tabDepth _ he (hnext (by simp) (by simp)) hlen hok
      | invalid =>
        rw [hevent] at hok hnext
        exact ih e s t tabDepth _ he (hnext (by simp) (by simp)) hlen hok
      | comment =>
        rw [hevent] at hok hnext
        exact ih e s t tabDepth _ he (hnext (by simp) (by simp)) hlen hok
      | endTag => rfl
      | kvPair name v =>
        rw [hevent] at hok hnext
        rw [if_neg (by simp), updateStep]
        have hrest := updateValue_rest s tabDepth false name v { st with line, rest := lines }
        rw [ih e s (t.put name (.value v)) tabDepth _ he (by rw [hrest]; exact hnext (by simp) (by simp))
          (by rw [hrest]; exact hlen) (by rw [hrest]; exact hok), hrest]
      | multiline name =>
        rw [hevent] at hok
        rw [if_neg (by simp), updateStep]
        have hrest := updateValue_rest s tabDepth true name (getMultiline lines).1
          { st with line, rest := (getMultiline lines).2 }
        have hmulti : Clear e s (getMultiline lines).2 := fun path c m v hin =>
          hclear path c m v (.multiline hevent hin)
        have hle := (getMultiline_suffix lines).length_le.trans hlen
        rw [ih e s (t.put name (.value (getMultiline lines).1)) tabDepth _ he
          (by rw [hrest]; exact hmulti) (by rw [hrest]; exact hle) (by rw [hrest]; exact hok), hrest]
      | group name =>
        rw [hevent] at hok
        rw [if_neg (by simp), updateStep, updateGroup]
        dsimp only at hok ⊢
        cases hp : parseConfigLines [125] nil lines with
        | mk ok r =>
          rw [hp] at hok
          cases ok with
          | false => exact absurd hok Bool.false_ne_true
          | true =>
            have hend : (parseConfigLines [125] nil lines).1 = true := by rw [hp]
            have hrest : (parseConfigLines [125] nil lines).2.2 = r.2 := by rw [hp]
            have hafter := hclear.after hevent hend
            rw [hrest] at hafter
            have hinner : ∀ g, Clear [125] g lines → (updateInner tabDepth lines g).rest = r.2 := by
              intro g hg
              rw [updateInner, finish_rest, ih [125] g nil (tabDepth + 1) { rest := lines }
                (by simp) hg hlen hend, hrest]
            have hle : r.2.length ≤ n := by
              have := length_parseLoop (lines.length + 1) [125] nil lines
              rw [← hrest]
              exact this.trans hlen
            cases hfind : s.find name with
            | none =>
              dsimp only
              rw [hinner nil (clear_nil [125] lines)]
              exact ih e s _ tabDepth _ he hafter hle hok
            | some entry =>
              cases entry with
              | value v => exact absurd hfind (hclear.ne_value hevent v)
              | group g =>
                dsimp only
                rw [hinner g (hclear.inside hevent hfind)]
                exact ih e s _ tabDepth _ he hafter hle hok

theorem updateInner_rest {g : Settings} {lines : List ByteString} (hclear : Clear [125] g lines)
    (hok : (parseConfigLines [125] nil lines).1 = true) :
    (updateInner tabDepth lines g).rest = (parseConfigLines [125] nil lines).2.2 := by
  rw [updateInner, finish_rest]
  exact updateLines_rest _ [125] g nil (tabDepth + 1) { rest := lines } (by simp) hclear
    (Nat.le_refl _) hok

end Consumed

section Kept

variable {e os₀ os line c : ByteString} {s : Settings} {st : UpdateState} {tabDepth : ℕ}
  {names names' lines lines' tail path : List ByteString}

theorem Wrote.unique (h : Wrote s e os₀ os names lines) (h' : Wrote s e os₀ os names' lines') :
    lines = lines' := by
  have heq : unlines lines = unlines lines' :=
    List.append_cancel_left (h.text.symm.trans h'.text)
  have hsplit := congrArg (·.splitOn 10) heq
  simp only [unlines, splitOn_text h.newline, splitOn_text h'.newline] at hsplit
  exact List.append_cancel_right hsplit

def Kept (e : ByteString) (lines path : List ByteString) (c : ByteString) : Prop :=
  ∀ tail, LineIn e (lines ++ tail) path c

/-- A line after a text of the settings is where it is without it. -/
theorem lineIn_append (h : Shows s e names lines) : LineIn e tail path c →
    LineIn e (lines ++ tail) path c := by
  intro hin
  induction h with
  | nil => exact hin
  | skip hline _ ih =>
    refine .next (fun name => ?_) ?_ (ih hin)
    · rcases hline with h | h | h <;> rw [h] <;> simp
    · rcases hline with h | h | h <;> rw [h] <;> simp
  | value hline _ _ ih =>
    refine .next (fun name => ?_) ?_ (ih hin) <;> rw [hline] <;> simp
  | @multiline s e line name v names body lines hline hbody _ _ _ ih =>
    rw [List.cons_append, List.append_assoc, List.cons_append]
    apply LineIn.multiline hline
    rw [getMultiline_append hbody]
    exact ih hin
  | @group s g e line endLine name names inner body lines hline _ hbody _ hend _ _ ih =>
    rw [List.cons_append, List.append_assoc, List.cons_append]
    obtain ⟨t, hp, -⟩ := parse_shows hbody nil (endLine :: (lines ++ tail))
    rw [parseConfigLines_cons, hend] at hp
    apply LineIn.after hline
    · rw [hp]
    · rw [hp]
      exact ih hin

theorem Kept.append (h : Shows s e names lines) (hk : Kept e lines' path c) :
    Kept e (lines ++ lines') path c := by
  intro tail
  rw [List.append_assoc]
  exact lineIn_append h (hk tail)

theorem not_lineIn_nil : ¬ LineIn e [] path c := fun h => by cases h

/-- The comments of the groups of the object are kept by the loop. -/
theorem kept_updateLines (n : ℕ) : ∀ (e : ByteString) (s : Settings) (tabDepth : ℕ)
    (st : UpdateState) (names lines path : List ByteString) (c : ByteString), 61 ∉ e → s.Valid →
    s.AllPlain → (∀ l ∈ st.rest, 10 ∉ l) → st.rest.length ≤ n →
    Wrote s e st.os (flush (updateLines e s tabDepth st)) names lines → Clear e s st.rest →
    LineIn e st.rest path c → parseConfigObject [] c = .comment → s.lookup path = some none →
    Kept e lines path c := by
  induction n with
  | zero =>
    intro e s tabDepth st names lines path c _ _ _ _ hlen _ _ hin
    rw [List.eq_nil_of_length_eq_zero (Nat.le_zero.mp hlen)] at hin
    exact absurd hin not_lineIn_nil
  | succ n ih =>
    intro e s tabDepth st names lines path c he hs hp hnl hlen hw hclear hin hc hpath
    cases hr : st.rest with
    | nil =>
      rw [hr] at hin
      exact absurd hin not_lineIn_nil
    | cons line rest =>
      rw [hr] at hnl hlen hclear hin
      have hnlr : ∀ l ∈ rest, 10 ∉ l := fun l hl => hnl l (List.mem_cons_of_mem _ hl)
      have hlen := Nat.le_of_succ_le_succ hlen
      rw [updateLines_cons e s tabDepth hr] at hw
      -- after lines that are written and show the settings, the rest is kept by induction
      have hrest : ∀ (st' : UpdateState) (names₁ chunk : List ByteString), st'.rest <:+ rest →
          Wrote s e st.os st'.os names₁ chunk →
          Wrote s e st.os (flush (updateLines e s tabDepth st')) names lines →
          (∃ ls, lines = chunk ++ ls) ∧ (Clear e s st'.rest → LineIn e st'.rest path c →
            Kept e lines path c) := by
        intro st' names₁ chunk hsuffix hchunk hw
        have hnl' : ∀ l ∈ st'.rest, 10 ∉ l := fun l hl => hnlr l (hsuffix.subset hl)
        have hlen' := hsuffix.length_le.trans hlen
        obtain ⟨names₂, ls, hw₂, -⟩ :=
          wrote_updateLines n e s tabDepth st' he hs hp hnl' hlen'
        have hlines := hw.unique (hchunk.append hw₂)
        refine ⟨⟨ls, hlines⟩, fun hclear' hin' => ?_⟩
        rw [hlines]
        exact Kept.append hchunk.shows
          (ih e s tabDepth st' names₂ ls path c he hs hp hnl' hlen' hw₂ hclear' hin' hc hpath)
      have hskip : (parseConfigObject e line = .none ∨ parseConfigObject e line = .invalid ∨
          parseConfigObject e line = .comment) → Wrote s e st.os (flush (updateLines e s tabDepth
            { st with
              line, rest
              os := st.os ++ line ++ if rest = [] then [] else [10] })) names lines →
          Kept e lines path c := by
        intro hevent hw
        have hcopy := wrote_skip (s := s) st.os (hnl line List.mem_cons_self) hevent
        by_cases hnil : rest = []
        · subst hnil
          cases hin with
          | here =>
            have hempty : c ≠ [] := by
              intro h
              rw [h] at hc
              cases hc
            rw [updateLines_nil e s tabDepth rfl] at hw
            have hflush : Wrote s e st.os (st.os ++ c ++ [10]) names lines := by
              simpa [flush, hempty] using hw
            rw [hflush.unique hcopy]
            exact fun tail => .here
          | next _ _ h => exact absurd h not_lineIn_nil
          | multiline hline _ => rcases hevent with h | h | h <;> rw [h] at hline <;> cases hline
          | inside hline _ => rcases hevent with h | h | h <;> rw [h] at hline <;> cases hline
          | after hline _ _ => rcases hevent with h | h | h <;> rw [h] at hline <;> cases hline
        · rw [if_neg hnil] at hw
          obtain ⟨⟨ls, hls⟩, hkept⟩ := hrest
            { st with line, rest, os := st.os ++ line ++ [10] } [] [line] (List.suffix_refl _) hcopy hw
          cases hin with
          | here => exact fun tail => hls ▸ .here
          | next hline hend h =>
            exact hkept (fun path c m v hin => hclear path c m v (.next hline hend hin)) h
          | multiline hline _ => rcases hevent with h | h | h <;> rw [h] at hline <;> cases hline
          | inside hline _ => rcases hevent with h | h | h <;> rw [h] at hline <;> cases hline
          | after hline _ _ => rcases hevent with h | h | h <;> rw [h] at hline <;> cases hline
      have hcomment : ∀ {event}, parseConfigObject e line = event → event ≠ .comment → c ≠ line := by
        intro event hevent hne heq
        exact hne (hevent.symm.trans (parseConfigObject_comment (heq ▸ hc)))
      cases hevent : parseConfigObject e line with
      | none =>
        rw [hevent, if_neg (by simp)] at hw
        exact hskip (Or.inl hevent) hw
      | invalid =>
        rw [hevent, if_neg (by simp)] at hw
        exact hskip (Or.inr (Or.inl hevent)) hw
      | comment =>
        rw [hevent, if_neg (by simp)] at hw
        exact hskip (Or.inr (Or.inr hevent)) hw
      | endTag =>
        cases hin with
        | here => exact absurd rfl (hcomment hevent (by simp))
        | next _ hend _ => exact absurd hevent hend
        | multiline hline _ => rw [hevent] at hline; cases hline
        | inside hline _ => rw [hevent] at hline; cases hline
        | after hline _ _ => rw [hevent] at hline; cases hline
      | kvPair name v =>
        rw [hevent, if_neg (by simp), updateStep] at hw
        obtain ⟨names₁, chunk, hchunk, -⟩ := wrote_updateValue { st with line, rest } false he hs hp
          tabDepth (hnl line List.mem_cons_self) hevent
        have hsame := updateValue_rest s tabDepth false name v { st with line, rest }
        have hkept := (hrest _ names₁ chunk (by rw [hsame]) hchunk hw).2
        rw [hsame] at hkept
        cases hin with
        | here => exact absurd rfl (hcomment hevent (by simp))
        | next hline hend h =>
          exact hkept (fun path c m v hin => hclear path c m v (.next hline hend hin)) h
        | multiline hline _ => rw [hevent] at hline; cases hline
        | inside hline _ => rw [hevent] at hline; cases hline
        | after hline _ _ => rw [hevent] at hline; cases hline
      | multiline name =>
        rw [hevent, if_neg (by simp), updateStep] at hw
        obtain ⟨names₁, chunk, hchunk, -⟩ := wrote_updateValue
          { st with line, rest := (getMultiline rest).2 } true (v := (getMultiline rest).1) he hs hp
          tabDepth (hnl line List.mem_cons_self) hevent
        have hsame := updateValue_rest s tabDepth true name (getMultiline rest).1
          { st with line, rest := (getMultiline rest).2 }
        have hkept := (hrest _ names₁ chunk (by rw [hsame]; exact getMultiline_suffix rest) hchunk
          hw).2
        rw [hsame] at hkept
        cases hin with
        | here => exact absurd rfl (hcomment hevent (by simp))
        | next hline _ _ => exact absurd hevent (hline name).2
        | multiline hline h =>
          exact hkept (fun path c m v hin => hclear path c m v (.multiline hline hin)) h
        | inside hline _ => rw [hevent] at hline; cases hline
        | after hline _ _ => rw [hevent] at hline; cases hline
      | group name =>
        rw [hevent, if_neg (by simp), updateStep, updateGroup] at hw
        have hparsed : ∀ g, Clear [125] g rest → (parseConfigLines [125] nil rest).1 = true →
            (updateInner tabDepth rest g).rest = (parseConfigLines [125] nil rest).2.2 :=
          fun g => updateInner_rest
        have hsuffix := fun g => updateInner_suffix tabDepth rest g
        cases hfind : s.find name with
        | none =>
          rw [hfind] at hw
          have hkept := (hrest
            { st with
              line
              rest := (updateInner tabDepth rest nil).rest
              wasModified := true } [] [] (hsuffix nil) (wrote_nil s e st.os) hw).2
          cases hin with
          | here => exact absurd rfl (hcomment hevent (by simp))
          | next hline _ _ => exact absurd hevent (hline name).1
          | multiline hline _ => rw [hevent] at hline; cases hline
          | inside hline h =>
            obtain rfl := SettingsParseEvent.group.inj (hevent.symm.trans hline)
            rw [lookup_cons, hfind] at hpath
            cases hpath
          | after hline hend h =>
            dsimp only at hkept
            rw [hparsed nil (clear_nil _ _) hend] at hkept
            exact hkept (hclear.after hline hend) h
        | some entry =>
          cases entry with
          | value v => exact absurd hfind (hclear.ne_value hevent v)
          | group g =>
            have hg := ((valid_iff.mp hs).2 _ (mem_entries_of_find hfind)).2
            have hgp := allPlain_iff.mp hp _ (mem_entries_of_find hfind)
            have hclearg := hclear.inside hevent hfind
            obtain ⟨inner, body, hbody, hpresent⟩ := wrote_updateLines n [125] g (tabDepth + 1)
              { rest } (by decide) hg hgp hnlr hlen
            rw [List.append_nil] at hpresent
            obtain ⟨inner', left, hgroup⟩ := wroteGroup_updateInner hg hgp hbody hpresent
            rw [hfind] at hw
            obtain ⟨⟨ls, hls⟩, hkept⟩ := hrest
              { st with
                line
                rest := (updateInner tabDepth rest g).rest
                os := st.os ++ line ++ [10] ++ (updateInner tabDepth rest g).os
                wasModified := st.wasModified || (updateInner tabDepth rest g).wasModified
                presentEntries := name :: st.presentEntries } [name] _ (hsuffix g)
              (wrote_group { st with line, rest } (hnl line List.mem_cons_self) hevent hfind hgroup)
              hw
            cases hin with
            | here => exact absurd rfl (hcomment hevent (by simp))
            | next hline _ _ => exact absurd hevent (hline name).1
            | multiline hline _ => rw [hevent] at hline; cases hline
            | @inside _ _ name' _ _ path hline h =>
              obtain rfl := SettingsParseEvent.group.inj (hevent.symm.trans hline)
              rw [lookup_cons, hfind] at hpath
              have hin := ih [125] g (tabDepth + 1) { rest } inner body path c (by decide) hg hgp
                hnlr hlen hbody hclearg h hc hpath
              intro tail
              rw [hls, List.cons_append, List.cons_append]
              apply LineIn.inside hline
              have htail := hin (left ++ [125] :: (ls ++ tail))
              simpa using htail
            | after hline hend h =>
              dsimp only at hkept
              rw [hparsed g hclearg hend] at hkept
              exact hkept (hclear.after hline hend) h

end Kept

/-- Every comment of a group that the object has is in this group of the new text. -/
def KeepsComments (s : Settings) (text text' : ByteString) : Prop :=
  ∀ path c, LineIn [] (text.splitOn 10) path c → parseConfigObject [] c = .comment →
    s.lookup path = some none → LineIn [] (text'.splitOn 10) path c

theorem keepsComments_updateConfigObject {s : Settings} (hs : s.Valid) (hp : s.AllPlain)
    {text : ByteString} (hclear : Clear [] s (text.splitOn 10)) :
    s.KeepsComments text (s.updateConfigObject text).2 := by
  intro path c hin hc hpath
  have hnl : ∀ l ∈ text.splitOn 10, 10 ∉ l := fun l hl => notMem_of_mem_splitOn hl
  obtain ⟨names, lines, hw, hpresent⟩ := wrote_updateLines _ [] s 0 { rest := text.splitOn 10 }
    (by decide) hs hp hnl (Nat.le_refl _)
  rw [List.append_nil] at hpresent
  have hkept := kept_updateLines _ [] s 0 { rest := text.splitOn 10 } names lines path c (by decide)
    hs hp hnl (Nat.le_refl _) hw hclear hin hc hpath
  obtain ⟨names', ls, hw', -⟩ := wrote_finish (by decide) hs hp hw hpresent 0
  have htext : (s.updateConfigObject text).2 = unlines (lines ++ ls) := by
    rw [← List.nil_append (unlines (lines ++ ls)), ← hw'.text]
    exact List.append_nil _
  have hsplit : (s.updateConfigObject text).2.splitOn 10 = lines ++ ls ++ [[]] :=
    htext ▸ splitOn_text hw'.newline
  rw [hsplit, List.append_assoc]
  exact hkept (ls ++ [[]])

/-- An updated text has the settings of the object and is up to date, and the comments stay in
their groups. -/
theorem updateConfigObject_correct {s : Settings} (h : Built s) (hp : s.AllPlain)
    (text : ByteString) :
    ((parse (s.updateConfigObject text).2).1 = true ∧
        Same (parse (s.updateConfigObject text).2).2 s) ∧
      (s.updateConfigObject (s.updateConfigObject text).2).1 = false ∧
      (Clear [] s (text.splitOn 10) → s.KeepsComments text (s.updateConfigObject text).2) := by
  obtain ⟨names, lines, htext, hshows, hall⟩ := shows_updateConfigObject h.valid hp text
  exact ⟨parse_of_shows hshows hall htext, not_modified_of_shows hshows hall htext,
    keepsComments_updateConfigObject h.valid hp⟩

/-- A group with a comment in the file and another value in the object. -/
theorem updateConfigObject_correct_group :
    ((parse ((group [103] (value [97] [49] nil) nil).updateConfigObject
          (bytes "g = \x7b\n#c\na = 2\n\x7d\n")).2).1 = true ∧
        Same (parse ((group [103] (value [97] [49] nil) nil).updateConfigObject
          (bytes "g = \x7b\n#c\na = 2\n\x7d\n")).2).2 (group [103] (value [97] [49] nil) nil)) ∧
      ((group [103] (value [97] [49] nil) nil).updateConfigObject
        ((group [103] (value [97] [49] nil) nil).updateConfigObject
          (bytes "g = \x7b\n#c\na = 2\n\x7d\n")).2).1 = false ∧
      (Clear [] (group [103] (value [97] [49] nil) nil)
          ((bytes "g = \x7b\n#c\na = 2\n\x7d\n").splitOn 10) →
        (group [103] (value [97] [49] nil) nil).KeepsComments
          (bytes "g = \x7b\n#c\na = 2\n\x7d\n")
          ((group [103] (value [97] [49] nil) nil).updateConfigObject
            (bytes "g = \x7b\n#c\na = 2\n\x7d\n")).2) := by
  have hg : Built (value [97] [49] nil) := @Built.set nil _ [97] [49] .empty (by decide)
  have hs : Built (group [103] (value [97] [49] nil) nil) :=
    @Built.setGroup nil _ _ [103] .empty hg (by decide)
  exact updateConfigObject_correct hs ⟨⟨by decide, trivial⟩, trivial⟩ _

/-- A comment in a group that the object does not have goes with the group. -/
theorem not_keeps_all_comments :
    Built nil ∧ (parse (bytes "g = \x7b\n#c\n\x7d\n")).1 = true ∧
      LineIn [] ((bytes "g = \x7b\n#c\n\x7d\n").splitOn 10) [[103]] [35, 99] ∧
      parseConfigObject [] [35, 99] = .comment ∧
      [35, 99] ∉ (nil.updateConfigObject (bytes "g = \x7b\n#c\n\x7d\n")).2.splitOn 10 := by
  have hsplit : (bytes "g = \x7b\n#c\n\x7d\n").splitOn 10 =
      [bytes "g = \x7b", [35, 99], [125], []] := by decide +kernel
  refine ⟨.empty, by decide +kernel, ?_, by decide, by decide +kernel⟩
  rw [hsplit]
  exact .inside (by decide +kernel) .here

end Settings

end Freeminer
