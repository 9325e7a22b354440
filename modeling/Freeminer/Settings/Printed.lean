import Freeminer.Settings.Text

/-! The text that is written of settings shows them, where every value is one that a line can
hold. -/

namespace Freeminer

open Lib

namespace Settings

def Valid : Settings → Prop
  | nil => True
  | value name v rest =>
    name ∉ rest.names ∧ checkNameValid name = true ∧ checkValueValid v = true ∧ rest.Valid
  | group name g rest => name ∉ rest.names ∧ checkNameValid name = true ∧ g.Valid ∧ rest.Valid

def Plain (v : ByteString) : Prop := 10 ∈ v ∨ (trim v = v ∧ v ≠ [123])

instance : DecidablePred Plain := fun v =>
  inferInstanceAs (Decidable (10 ∈ v ∨ (trim v = v ∧ v ≠ [123])))

def AllPlain : Settings → Prop
  | nil => True
  | value _ v rest => Plain v ∧ rest.AllPlain
  | group _ g rest => g.AllPlain ∧ rest.AllPlain

def ValidEntry : SettingsEntry → Prop
  | .value v => checkValueValid v = true
  | .group g => g.Valid

def PlainEntry : SettingsEntry → Prop
  | .value v => Plain v
  | .group g => g.AllPlain

section Built

variable {s : Settings} {name : ByteString} {entry : SettingsEntry}

theorem valid_cons {rest : Settings} : (cons name entry rest).Valid ↔
    name ∉ rest.names ∧ checkNameValid name = true ∧ ValidEntry entry ∧ rest.Valid := by
  cases entry <;> rfl

theorem allPlain_cons {rest : Settings} :
    (cons name entry rest).AllPlain ↔ PlainEntry entry ∧ rest.AllPlain := by
  cases entry <;> rfl

theorem names_cons (name : ByteString) (entry : SettingsEntry) (rest : Settings) :
    (cons name entry rest).names = name :: rest.names := by
  rw [names, entries_cons, List.map_cons]
  rfl

theorem valid_iff : s.Valid ↔ s.names.Nodup ∧
    ∀ p ∈ s.entries, checkNameValid p.1 = true ∧ ValidEntry p.2 := by
  induction s using consInduction with
  | nil => simp [Valid, names, entries]
  | cons n e rest ih =>
    rw [valid_cons, ih, names_cons, List.nodup_cons, entries_cons, List.forall_mem_cons]
    tauto

theorem allPlain_iff : s.AllPlain ↔ ∀ p ∈ s.entries, PlainEntry p.2 := by
  induction s using consInduction with
  | nil => simp [AllPlain, entries]
  | cons n e rest ih => rw [allPlain_cons, ih, entries_cons, List.forall_mem_cons]

theorem mem_entries_put {p : ByteString × SettingsEntry} (h : p ∈ (s.put name entry).entries) :
    p = (name, entry) ∨ p ∈ s.entries := by
  induction s using consInduction with
  | nil =>
    rw [put, entries_cons, List.mem_cons] at h
    exact h
  | cons n e rest ih =>
    rw [put_cons] at h
    split_ifs at h
    · rw [entries_cons, List.mem_cons] at h ⊢
      exact h.imp id Or.inr
    · rw [entries_cons, List.mem_cons] at h ⊢
      cases h with
      | inl heq => exact Or.inr (Or.inl heq)
      | inr hmem => exact (ih hmem).imp id Or.inr

theorem put_valid (h : s.Valid) (hname : checkNameValid name = true) (he : ValidEntry entry) :
    (s.put name entry).Valid := by
  induction s using consInduction with
  | nil => exact valid_cons.mpr ⟨List.not_mem_nil, hname, he, trivial⟩
  | cons n e rest ih =>
    obtain ⟨hn, hvn, hve, hrest⟩ := valid_cons.mp h
    rw [put_cons]
    split_ifs with heq
    · subst heq
      exact valid_cons.mpr ⟨hn, hname, he, hrest⟩
    · refine valid_cons.mpr ⟨fun hin => ?_, hvn, hve, ih hrest⟩
      obtain ⟨p, hp, rfl⟩ := List.mem_map.mp hin
      cases mem_entries_put hp with
      | inl hpe => exact heq (congrArg Prod.fst hpe)
      | inr hmem => exact hn (List.mem_map_of_mem hmem)

theorem put_allPlain (h : s.AllPlain) (he : PlainEntry entry) : (s.put name entry).AllPlain := by
  rw [allPlain_iff] at h ⊢
  intro p hp
  cases mem_entries_put hp with
  | inl heq => exact heq ▸ he
  | inr hmem => exact h p hmem

theorem Built.valid (h : Built s) : s.Valid := by
  induction h with
  | empty => trivial
  | set _ hs ih =>
    unfold Settings.set at hs
    split_ifs at hs with hv
    obtain ⟨hname, hvalue⟩ := Bool.and_eq_true_iff.mp hv
    exact Option.some.inj hs ▸ put_valid ih hname hvalue
  | setGroup _ _ hs ih ihg =>
    unfold Settings.setGroup at hs
    split_ifs at hs with hname
    exact Option.some.inj hs ▸ put_valid ih hname ihg
  | reorder _ hperm ih =>
    rw [valid_iff] at ih ⊢
    exact ⟨(hperm.map Prod.fst).nodup_iff.mp ih.1, fun p hp => ih.2 p (hperm.mem_iff.mpr hp)⟩

/-- A map has plain values when what is found at every path is plain. -/
theorem allPlain_of_lookup (hs : s.Valid)
    (h : ∀ path v, s.lookup path = some (some v) → Plain v) : s.AllPlain := by
  induction s with
  | nil => trivial
  | value n v rest ih =>
    obtain ⟨hn, -, -, hrest⟩ := hs
    have hfind := fun m => find_cons n (.value v) rest m
    refine ⟨h [n] v ?_, ih hrest fun path w hw => h path w ?_⟩
    · rw [lookup_cons]
      exact (congrArg (entryAt · []) (hfind n)).trans (by rw [if_pos rfl]; rfl)
    · cases path with
      | nil => exact hw
      | cons m path =>
        rw [lookup_cons] at hw ⊢
        have hne : m ≠ n := by
          intro heq
          rw [heq, find_eq_none hn] at hw
          cases hw
        have := hfind m
        rw [if_neg hne] at this
        exact (congrArg (entryAt · path) this).trans hw
  | group n g rest ihg ih =>
    obtain ⟨hn, -, hg, hrest⟩ := hs
    have hfind := fun m => find_cons n (.group g) rest m
    refine ⟨ihg hg fun path w hw => h (n :: path) w ?_, ih hrest fun path w hw => h path w ?_⟩
    · rw [lookup_cons]
      have := hfind n
      rw [if_pos rfl] at this
      exact (congrArg (entryAt · path) this).trans hw
    · cases path with
      | nil => exact hw
      | cons m path =>
        rw [lookup_cons] at hw ⊢
        have hne : m ≠ n := by
          intro heq
          rw [heq, find_eq_none hn] at hw
          cases hw
        have := hfind m
        rw [if_neg hne] at this
        exact (congrArg (entryAt · path) this).trans hw

theorem plain_of_lookup (h : s.AllPlain) : ∀ path v, s.lookup path = some (some v) → Plain v := by
  intro path
  induction path generalizing s with
  | nil => exact fun v hv => by cases hv
  | cons m path ih =>
    intro v hv
    rw [lookup_cons] at hv
    cases hf : s.find m with
    | none =>
      rw [hf] at hv
      cases hv
    | some entry =>
      have hp := allPlain_iff.mp h _ (mem_entries_of_find hf)
      rw [hf] at hv
      cases entry with
      | value w =>
        rw [entryAt] at hv
        split_ifs at hv
        exact Option.some.inj (Option.some.inj hv) ▸ hp
      | group g => exact ih hp v hv

end Built

section Lines

def header (name : ByteString) (tabDepth : ℕ) (v : ByteString) : ByteString :=
  tabs tabDepth ++ name ++ bytes " = " ++ v

def valueLines (name v : ByteString) (tabDepth : ℕ) : List ByteString :=
  if 10 ∈ v then header name tabDepth quotes :: (v.splitOn 10 ++ [quotes])
  else [header name tabDepth v]

def textLines : Settings → ℕ → List ByteString
  | nil, _ => []
  | value name v rest, tabDepth => valueLines name v tabDepth ++ textLines rest tabDepth
  | group name g rest, tabDepth =>
    header name tabDepth [123] ::
      (textLines g (tabDepth + 1) ++ (tabs (tabDepth + 1) ++ [125]) :: textLines rest tabDepth)

variable {s S : Settings} {e name v line : ByteString} {names lines : List ByteString}

theorem printValue_eq (name v : ByteString) (tabDepth : ℕ) :
    printValue name v tabDepth = (valueLines name v tabDepth).flatMap (· ++ [10]) := by
  unfold printValue valueLines
  split_ifs with h
  · rw [List.flatMap_cons, List.flatMap_append, flatMap_splitOn]
    simp [header]
  · simp [header]

theorem writeLines_eq (s : Settings) (tabDepth : ℕ) :
    s.writeLines tabDepth = (s.textLines tabDepth).flatMap (· ++ [10]) := by
  induction s generalizing tabDepth with
  | nil => rfl
  | value n v rest ih =>
    rw [writeLines, textLines, List.flatMap_append, printValue_eq, ih]
  | group n g rest ihg ih =>
    rw [writeLines, textLines, List.flatMap_cons, List.flatMap_append, List.flatMap_cons, ihg, ih]
    simp [header]

theorem newline_notMem_header (hname : checkNameValid name = true) (hv : 10 ∉ v) (tabDepth : ℕ) :
    10 ∉ header name tabDepth v := by
  have hn : (10 : UInt8) ∉ name := by
    intro h
    have := isSpace_of_checkNameValid hname 10 h
    exact absurd this (by decide)
  have ht : (10 : UInt8) ∉ tabs tabDepth := by
    intro h
    exact absurd (List.eq_of_mem_replicate h) (by decide)
  have hb : (10 : UInt8) ∉ bytes " = " := by decide
  simp [header, hn, ht, hb, hv]

theorem newline_notMem_valueLines (hname : checkNameValid name = true) (tabDepth : ℕ) :
    ∀ l ∈ valueLines name v tabDepth, 10 ∉ l := by
  intro l hl
  unfold valueLines at hl
  split_ifs at hl with hv
  · rcases List.mem_cons.mp hl with rfl | hl
    · exact newline_notMem_header hname (by decide) tabDepth
    · rcases List.mem_append.mp hl with hl | hl
      · exact notMem_of_mem_splitOn hl
      · rw [List.mem_singleton.mp hl]
        decide
  · rw [List.mem_singleton.mp hl]
    exact newline_notMem_header hname hv tabDepth

theorem newline_notMem_end (tabDepth : ℕ) : (10 : UInt8) ∉ tabs tabDepth ++ [125] := by
  intro h
  rcases List.mem_append.mp h with h | h
  · exact absurd (List.eq_of_mem_replicate h) (by decide)
  · exact absurd (List.mem_singleton.mp h) (by decide)

theorem newline_notMem_textLines (h : s.Valid) (tabDepth : ℕ) :
    ∀ l ∈ s.textLines tabDepth, 10 ∉ l := by
  induction s generalizing tabDepth with
  | nil => exact fun l hl => absurd hl List.not_mem_nil
  | value n v rest ih =>
    intro l hl
    rcases List.mem_append.mp hl with hl | hl
    · exact newline_notMem_valueLines h.2.1 tabDepth l hl
    · exact ih h.2.2.2 tabDepth l hl
  | group n g rest ihg ih =>
    intro l hl
    rcases List.mem_cons.mp hl with rfl | hl
    · exact newline_notMem_header h.2.1 (by decide) tabDepth
    · rcases List.mem_append.mp hl with hl | hl
      · exact ihg h.2.2.1 (tabDepth + 1) l hl
      · rcases List.mem_cons.mp hl with rfl | hl
        · exact newline_notMem_end (tabDepth + 1)
        · exact ih h.2.2.2 tabDepth l hl

theorem splitOn_text (h : ∀ l ∈ lines, 10 ∉ l) :
    (lines.flatMap (· ++ [10])).splitOn 10 = lines ++ [[]] := by
  have := splitOn_lines h []
  rwa [List.append_nil, List.splitOn_nil] at this

theorem shows_value (he : 61 ∉ e) (hfind : S.find name = some (.value v))
    (hname : checkNameValid name = true) (hvalid : checkValueValid v = true) (hplain : Plain v)
    (tabDepth : ℕ) (h : Shows S e names lines) :
    Shows S e (name :: names) (valueLines name v tabDepth ++ lines) := by
  unfold valueLines
  split_ifs with hv
  · have hline := parseConfigObject_printed he hname tabDepth quotes
    rw [if_neg (by decide), if_pos (by decide)] at hline
    rw [List.cons_append, List.append_assoc, List.singleton_append]
    refine .multiline hline (quotes_notMem_splitOn hvalid) ?_ hfind h
    rw [flatMap_splitOn, List.dropLast_concat]
  · obtain ⟨htrim, hne⟩ := hplain.resolve_left hv
    have hq : v ≠ quotes := by
      intro heq
      rw [heq] at hvalid
      exact absurd hvalid (by decide)
    have hline := parseConfigObject_printed he hname tabDepth v
    rw [htrim, if_neg hne, if_neg hq] at hline
    exact .value hline hfind h

/-- The lines of a part of the entries, before lines that show others. -/
theorem shows_append (he : 61 ∉ e) (hvalid : s.Valid) (hplain : s.AllPlain)
    (hfind : ∀ p ∈ s.entries, S.find p.1 = some p.2) (tabDepth : ℕ) (h : Shows S e names lines) :
    Shows S e (s.names ++ names) (s.textLines tabDepth ++ lines) := by
  induction s generalizing S e names lines tabDepth with
  | nil => exact h
  | value n v rest ih =>
    obtain ⟨-, hn, hv, hrest⟩ := hvalid
    rw [textLines, List.append_assoc]
    apply shows_value he (hfind (n, .value v) List.mem_cons_self) hn hv hplain.1
    exact ih he hrest hplain.2 (fun p hp => hfind p (List.mem_cons_of_mem _ hp)) tabDepth h
  | group n g rest ihg ih =>
    obtain ⟨-, hn, hg, hrest⟩ := hvalid
    have hline := parseConfigObject_printed he hn tabDepth [123]
    rw [if_pos (by decide)] at hline
    have hbody := ihg (S := g) (e := [125]) (by decide) hg hplain.1
      (fun p hp => find_of_mem (valid_iff.mp hg).1 hp) (tabDepth + 1) .nil
    rw [List.append_nil, List.append_nil] at hbody
    rw [textLines, List.cons_append, List.append_assoc, List.cons_append]
    apply Shows.group hline (hfind (n, .group g) List.mem_cons_self) hbody (List.Subset.refl _)
      (parseConfigObject_end (tabDepth + 1))
    exact ih he hrest hplain.2 (fun p hp => hfind p (List.mem_cons_of_mem _ hp)) tabDepth h

theorem shows_textLines (he : 61 ∉ e) (hvalid : s.Valid) (hplain : s.AllPlain) (tabDepth : ℕ) :
    Shows s e s.names (s.textLines tabDepth) := by
  have h := shows_append he hvalid hplain (fun p hp => find_of_mem (valid_iff.mp hvalid).1 hp)
    tabDepth (.nil (s := s) (e := e))
  rwa [List.append_nil, List.append_nil] at h

end Lines

end Settings

/-! Settings that are written and parsed again. Whatever is written, the parser takes only plain
values from it: where it takes a line for the start of a value of several lines, it goes on to the
end of some printed value, and so to the start of a line again. -/

namespace Settings

/-- Lines as they are printed, up to the empty one at the end of the text: no line of a value can be
taken for its end. -/
inductive Chunked : List ByteString → Prop
  | last : Chunked [[]]
  | line {line : ByteString} {lines : List ByteString} (hline : line ≠ quotes)
    (hlines : Chunked lines) : Chunked (line :: lines)
  | multiline {name : ByteString} {tabDepth : ℕ} {body lines : List ByteString}
    (hname : checkNameValid name = true) (hbody : quotes ∉ body) (hlen : 2 ≤ body.length)
    (hlines : Chunked lines) :
    Chunked (header name tabDepth quotes :: (body ++ quotes :: lines))

section Chunked

variable {s : Settings} {e name v line : ByteString} {lines body : List ByteString}

theorem equals_mem_header (name : ByteString) (tabDepth : ℕ) (v : ByteString) :
    61 ∈ header name tabDepth v :=
  List.mem_append_left _ (List.mem_append_right _ (by decide))

theorem header_ne_quotes (name : ByteString) (tabDepth : ℕ) (v : ByteString) :
    header name tabDepth v ≠ quotes := by
  intro h
  have := equals_mem_header name tabDepth v
  rw [h] at this
  exact absurd this (by decide)

theorem newline_mem_body (h : 2 ≤ body.length) : 10 ∈ (body.flatMap (· ++ [10])).dropLast := by
  match body, h with
  | l :: m :: body, _ =>
    rw [List.flatMap_cons, List.dropLast_append_of_ne_nil (by simp)]
    simp

/-- From the start of a printed line, the lines of a value end where a printed one ends. -/
theorem getMultiline_chunked (h : Chunked lines) :
    (10 ∈ (getMultiline lines).1 ∨ (getMultiline lines).1 = []) ∧
      ((getMultiline lines).2 = [] ∨ Chunked (getMultiline lines).2) := by
  -- a line before others that are not empty brings a newline
  have hcons : ∀ (l v : ByteString), v ≠ [] → 10 ∈ (l ++ 10 :: v).dropLast := by
    intro l v hv
    rw [List.dropLast_append_of_ne_nil (by simp), List.dropLast_cons_of_ne_nil hv]
    simp
  have hloop : (multilineLoop lines).1 ≠ [] ∧
      ((multilineLoop lines).2 = [] ∨ Chunked (multilineLoop lines).2) ∧
      (10 ∈ (multilineLoop lines).1.dropLast ∨ (multilineLoop lines).1.dropLast = []) := by
    induction h with
    | last => exact ⟨by decide, Or.inl rfl, Or.inr rfl⟩
    | @line l lines hl _ ih =>
      rw [multilineLoop, if_neg hl]
      exact ⟨by simp, ih.2.1, Or.inl (hcons l _ ih.1)⟩
    | @multiline name tabDepth body lines _ hbody hlen hlines _ =>
      rw [multilineLoop, if_neg (header_ne_quotes name tabDepth quotes), multilineLoop_append hbody]
      have hne : body.flatMap (· ++ [10]) ≠ [] := by
        cases body with
        | nil => simp at hlen
        | cons l body => simp
      exact ⟨by simp, Or.inr hlines, Or.inl (hcons _ _ hne)⟩
  exact ⟨hloop.2.2, hloop.2.1⟩

theorem plain_of_kvPair (h : parseConfigObject e line = .kvPair name v) : Plain v := by
  unfold parseConfigObject at h
  split at h
  · cases h
  · split_ifs at h
    split at h
    · cases h
    · split_ifs at h with h₁ h₂
      obtain ⟨-, rfl⟩ := SettingsParseEvent.kvPair.inj h
      exact Or.inr ⟨trim_trim _, h₁⟩

theorem plain_of_getMultiline (h : Chunked lines) : Plain (getMultiline lines).1 := by
  rcases (getMultiline_chunked h).1 with hmem | hnil
  · exact Or.inl hmem
  · rw [hnil]
    decide

/-- The parser takes only plain values from printed lines. -/
theorem parseLoop_allPlain (fuel : ℕ) : ∀ (e : ByteString) (s : Settings) (lines : List ByteString),
    61 ∉ e → s.AllPlain → (lines = [] ∨ Chunked lines) →
    (parseLoop fuel e s lines).2.1.AllPlain ∧ ((parseLoop fuel e s lines).2.2 = [] ∨
      Chunked (parseLoop fuel e s lines).2.2) := by
  induction fuel with
  | zero => exact fun e s lines _ hs hl => ⟨hs, hl⟩
  | succ fuel ih =>
    intro e s lines he hs hl
    cases lines with
    | nil => exact ⟨hs, Or.inl rfl⟩
    | cons line lines =>
      have hch := hl.resolve_left (List.cons_ne_nil _ _)
      -- what follows the line, and a value of several lines that starts there
      have hnext : (∃ name, parseConfigObject e line = .multiline name ∧
          Plain (getMultiline lines).1 ∧ Chunked (getMultiline lines).2) ∨
          (lines = [] ∨ Chunked lines) := by
        cases hch with
        | last => exact Or.inr (Or.inl rfl)
        | line _ hlines => exact Or.inr (Or.inr hlines)
        | @multiline name tabDepth body lines hname hbody hlen hlines =>
          have hline := parseConfigObject_printed he hname tabDepth quotes
          rw [if_neg (by decide), if_pos (by decide)] at hline
          refine Or.inl ⟨name, hline, ?_⟩
          rw [getMultiline_append hbody]
          exact ⟨Or.inl (newline_mem_body hlen), hlines⟩
      unfold parseLoop
      cases hp : parseConfigObject e line with
      | none => exact ih e s lines he hs (hnext.resolve_left (by simp [hp]))
      | invalid => exact ih e s lines he hs (hnext.resolve_left (by simp [hp]))
      | comment => exact ih e s lines he hs (hnext.resolve_left (by simp [hp]))
      | kvPair name v =>
        have hv : PlainEntry (.value v) := plain_of_kvPair hp
        exact ih e _ lines he (put_allPlain hs hv) (hnext.resolve_left (by simp [hp]))
      | endTag => exact ⟨hs, hnext.resolve_left (by simp [hp])⟩
      | group name =>
        obtain ⟨hg, hrest⟩ := ih [125] nil lines (by decide) trivial
          (hnext.resolve_left (by simp [hp]))
        dsimp only
        cases hr : parseLoop fuel [125] nil lines with
        | mk ok r =>
          rw [hr] at hg hrest
          cases ok with
          | false => exact ⟨hs, hrest⟩
          | true =>
            have hv : PlainEntry (.group r.1) := hg
            exact ih e _ r.2 he (put_allPlain hs hv) hrest
      | multiline name =>
        have hboth : Plain (getMultiline lines).1 ∧
            ((getMultiline lines).2 = [] ∨ Chunked (getMultiline lines).2) := by
          rcases hnext with ⟨_, _, hplain, hc⟩ | hnil | hc
          · exact ⟨hplain, Or.inr hc⟩
          · rw [hnil]
            exact ⟨by decide, Or.inl rfl⟩
          · exact ⟨plain_of_getMultiline hc, (getMultiline_chunked hc).2⟩
        have hv : PlainEntry (.value (getMultiline lines).1) := hboth.1
        exact ih e _ _ he (put_allPlain hs hv) hboth.2

theorem chunked_valueLines (hname : checkNameValid name = true) (hv : checkValueValid v = true)
    (tabDepth : ℕ) (h : Chunked lines) : Chunked (valueLines name v tabDepth ++ lines) := by
  unfold valueLines
  split_ifs with hnl
  · rw [List.cons_append, List.append_assoc, List.singleton_append]
    refine .multiline hname (quotes_notMem_splitOn hv) ?_ h
    obtain ⟨a, b, rfl⟩ := List.append_of_mem hnl
    have hpos : 0 < (b.splitOn 10).length := List.length_pos_iff.mpr (List.splitOn_ne_nil 10 b)
    have hpos' : 0 < (a.splitOn 10).length := List.length_pos_iff.mpr (List.splitOn_ne_nil 10 a)
    rw [List.splitOn_append_cons_self, List.length_append]
    omega
  · exact .line (header_ne_quotes name tabDepth v) h

theorem chunked_textLines (hs : s.Valid) (tabDepth : ℕ) (h : Chunked lines) :
    Chunked (s.textLines tabDepth ++ lines) := by
  induction s generalizing tabDepth lines with
  | nil => exact h
  | value n v rest ih =>
    rw [textLines, List.append_assoc]
    exact chunked_valueLines hs.2.1 hs.2.2.1 tabDepth (ih hs.2.2.2 tabDepth h)
  | group n g rest ihg ih =>
    rw [textLines, List.cons_append, List.append_assoc, List.cons_append]
    apply Chunked.line (header_ne_quotes n tabDepth [123])
    apply ihg hs.2.2.1
    refine .line (fun heq => ?_) (ih hs.2.2.2 tabDepth h)
    have : (125 : UInt8) ∈ quotes := heq ▸ List.mem_append_right _ List.mem_cons_self
    exact absurd this (by decide)

end Chunked

def RoundTrips (s : Settings) : Prop :=
  (parse (s.writeLines 0)).1 = true ∧ Same (parse (s.writeLines 0)).2 s

theorem splitOn_writeLines {s : Settings} (h : s.Valid) :
    (s.writeLines 0).splitOn 10 = s.textLines 0 ++ [[]] := by
  rw [writeLines_eq, splitOn_text (newline_notMem_textLines h 0)]

/-- Exactly the settings with plain values survive. -/
theorem roundTrips_iff {s : Settings} (h : Built s) : s.RoundTrips ↔ s.AllPlain := by
  have hvalid := h.valid
  constructor
  · intro ⟨_, hsame⟩
    have hplain : (parse (s.writeLines 0)).2.AllPlain := by
      unfold parse
      rw [splitOn_writeLines hvalid]
      exact (parseLoop_allPlain _ [] nil _ (by decide) trivial
        (Or.inr (chunked_textLines hvalid 0 .last))).1
    apply allPlain_of_lookup hvalid
    intro path v hv
    exact plain_of_lookup hplain path v ((hsame path).trans hv)
  · intro hplain
    exact parse_of_shows (shows_textLines (by decide) hvalid hplain 0) (List.Subset.refl _)
      (splitOn_writeLines hvalid)

/-- A group with a value of two lines, the second of which is blank at its ends. -/
theorem roundTrips_iff_lines :
    (group [103] (value [97] [120, 10, 32, 121, 32] nil) (value [98] [] nil)).RoundTrips ↔
      (group [103] (value [97] [120, 10, 32, 121, 32] nil) (value [98] [] nil)).AllPlain := by
  have hg : Built (value [97] [120, 10, 32, 121, 32] nil) :=
    @Built.set nil _ [97] [120, 10, 32, 121, 32] .empty (by decide)
  have hs : Built (group [103] (value [97] [120, 10, 32, 121, 32] nil) nil) :=
    @Built.setGroup nil _ _ [103] .empty hg (by decide)
  exact roundTrips_iff (@Built.set _ _ [98] [] hs (by decide))

/-- A value with a blank before it is set, but it is another one when it is read again. -/
theorem not_roundTrips_blank :
    Built (value [97] [32, 120] nil) ∧ ¬ (value [97] [32, 120] nil).RoundTrips := by
  refine ⟨@Built.set nil _ [97] [32, 120] .empty (by decide), fun h => ?_⟩
  have := h.2 [[97]]
  exact absurd this (by decide)

end Settings

end Freeminer
