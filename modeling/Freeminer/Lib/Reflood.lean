import Mathlib.Order.Lattice.Nat

/-! Light that loses one level along each edge of a graph: what reaches a vertex from all sources,
and what tells a light that is computed some other way to be this one. -/

namespace Freeminer.Lib

variable {V : Type*}

/-- A path of a length; only where it starts need not be open. -/
inductive OpenPath (nbr : V → V → Prop) (opens : V → Prop) : V → V → ℕ → Prop
  | nil {s : V} : OpenPath nbr opens s s 0
  | snoc {s u v : V} {n : ℕ} (h : OpenPath nbr opens s u n) (hnbr : nbr u v) (hopen : opens v) :
    OpenPath nbr opens s v (n + 1)

/-- The greatest level of a source less the length of a path from it. -/
noncomputable def lightAt (nbr : V → V → Prop) (opens : V → Prop) (src : V → ℕ) (v : V) : ℕ :=
  sSup {k | ∃ s n, OpenPath nbr opens s v n ∧ k = src s - n}

section Falloff

variable {nbr : V → V → Prop} {opens : V → Prop} {src F : V → ℕ} {B n : ℕ} {s u v : V}

theorem le_lightAt (hB : ∀ v, src v ≤ B) (h : OpenPath nbr opens s v n) :
    src s - n ≤ lightAt nbr opens src v := by
  apply le_csSup
  · refine ⟨B, ?_⟩
    rintro k ⟨s, n, -, rfl⟩
    exact (Nat.sub_le _ _).trans (hB s)
  · exact ⟨s, n, h, rfl⟩

variable (nbr opens) in
theorem lightAt_mem (hB : ∀ v, src v ≤ B) (v : V) :
    ∃ s n, OpenPath nbr opens s v n ∧ lightAt nbr opens src v = src s - n := by
  apply Nat.sSup_mem (s := {k | ∃ s n, OpenPath nbr opens s v n ∧ k = src s - n})
  · exact ⟨src v - 0, v, 0, .nil, rfl⟩
  · refine ⟨B, ?_⟩
    rintro k ⟨s, n, -, rfl⟩
    exact (Nat.sub_le _ _).trans (hB s)

variable (nbr opens) in
theorem src_le_lightAt (hB : ∀ v, src v ≤ B) (v : V) : src v ≤ lightAt nbr opens src v :=
  le_lightAt hB .nil

variable (nbr opens) in
theorem lightAt_le (hB : ∀ v, src v ≤ B) (v : V) : lightAt nbr opens src v ≤ B := by
  obtain ⟨s, n, -, h⟩ := lightAt_mem nbr opens hB v
  rw [h]
  exact (Nat.sub_le _ _).trans (hB s)

/-- Along an edge the light falls by one at most. -/
theorem lightAt_le_succ (hB : ∀ v, src v ≤ B) (hnbr : nbr u v) (hopen : opens v) :
    lightAt nbr opens src u ≤ lightAt nbr opens src v + 1 := by
  obtain ⟨s, n, hpath, h⟩ := lightAt_mem nbr opens hB u
  have := le_lightAt hB (hpath.snoc hnbr hopen)
  omega

variable (nbr opens) in
/-- A light is that of a source or comes from a vertex that is brighter. -/
theorem lightAt_supported (hB : ∀ v, src v ≤ B) (v : V) :
    lightAt nbr opens src v ≤ src v ∨ ∃ u, nbr u v ∧ opens v ∧
      lightAt nbr opens src v < lightAt nbr opens src u := by
  obtain ⟨s, n, hpath, h⟩ := lightAt_mem nbr opens hB v
  cases hpath with
  | nil => exact Or.inl (h ▸ Nat.sub_le _ _)
  | @snoc u _ n hpath hnbr hopen =>
    have hle := le_lightAt hB hpath
    by_cases hpos : src s - n = 0
    · left
      omega
    · exact Or.inr ⟨u, hnbr, hopen, by omega⟩

theorem le_lightAt_of_supported (hB : ∀ v, src v ≤ B) (hF : ∀ v, F v ≤ B)
    (hsup : ∀ v, F v ≤ src v ∨ ∃ u, nbr u v ∧ opens v ∧ F v < F u) (v : V) :
    F v ≤ lightAt nbr opens src v := by
  -- by induction on how far the light is below the bound
  induction hd : B - F v using Nat.strong_induction_on generalizing v with
  | _ d ih =>
    cases hsup v with
    | inl h => exact h.trans (src_le_lightAt nbr opens hB v)
    | inr h =>
      obtain ⟨u, hnbr, hopen, hlt⟩ := h
      have hu := ih (B - F u) (by have := hF u; omega) u rfl
      have := lightAt_le_succ hB hnbr hopen
      omega

theorem sub_le_of_closed (hsrc : ∀ v, src v ≤ F v)
    (hclosed : ∀ u v, nbr u v → opens v → F u ≤ F v + 1) (h : OpenPath nbr opens s v n) :
    src s - n ≤ F v := by
  induction h with
  | nil => exact hsrc _
  | snoc _ hnbr hopen ih =>
    have := hclosed _ _ hnbr hopen
    omega

/-- The light that all sources give is the only one that falls by one at most and in which all that
is brighter than its source is lit by a neighbour. -/
theorem eq_lightAt (hB : ∀ v, src v ≤ B) (hF : ∀ v, F v ≤ B) (hsrc : ∀ v, src v ≤ F v)
    (hclosed : ∀ u v, nbr u v → opens v → F u ≤ F v + 1)
    (hsup : ∀ v, F v ≤ src v ∨ ∃ u, nbr u v ∧ opens v ∧ F v < F u) (v : V) :
    F v = lightAt nbr opens src v := by
  apply le_antisymm (le_lightAt_of_supported hB hF hsup v)
  obtain ⟨s, n, hpath, h⟩ := lightAt_mem nbr opens hB v
  rw [h]
  exact sub_le_of_closed hsrc hclosed hpath

end Falloff

end Freeminer.Lib

/-! Bringing a light up to date: it is taken away from all that may have it from a vertex that has
lost its own, brightest first, and spreads again from what was bright enough to keep it. -/

namespace Freeminer.Lib

variable {V : Type*}

/-- A vertex that waits in a queue, with a light and the vertex that had it put there. -/
structure Entry (V : Type*) where
  level : ℕ
  node : V
  source : Option V

/-- What is stored, what has lost its light and what is to be lit again. -/
structure Flood (V : Type*) where
  raw : V → ℕ
  queue : Set (Entry V)
  found : Set (Entry V)

def glow (src raw : V → ℕ) (v : V) : ℕ := max (src v) (raw v)

def Holds (q : Set (Entry V)) (v : V) (k : ℕ) : Prop := ∃ e ∈ q, e.node = v ∧ k ≤ e.level

section Glow

variable {src raw raw' : V → ℕ} {q q' : Set (Entry V)} {v : V} {k : ℕ}

theorem src_le_glow (src raw : V → ℕ) (v : V) : src v ≤ glow src raw v := Nat.le_max_left _ _

theorem raw_le_glow (src raw : V → ℕ) (v : V) : raw v ≤ glow src raw v := Nat.le_max_right _ _

theorem glow_mono (h : raw v ≤ raw' v) : glow src raw v ≤ glow src raw' v :=
  max_le_max_left (src v) h

theorem Holds.mono (h : Holds q v k) (hq : q ⊆ q') : Holds q' v k := by
  obtain ⟨e, he, hv, hk⟩ := h
  exact ⟨e, hq he, hv, hk⟩

theorem Holds.of_le {n : ℕ} (h : Holds q v k) (hn : n ≤ k) : Holds q v n := by
  obtain ⟨e, he, hv, hk⟩ := h
  exact ⟨e, he, hv, hn.trans hk⟩

end Glow

variable (nbr : V → V → Prop) (opens : V → Prop) (src : V → ℕ)

/-! ### Taking light away -/

/-- The brightest vertex of the queue is done: its dimmer neighbours lose their light, and what is
left around it lights it again. -/
structure Unlights (e : Entry V) (st st' : Flood V) : Prop where
  mem : e ∈ st.queue
  brightest : ∀ e' ∈ st.queue, e'.level ≤ e.level
  raw : ∀ v, st'.raw v = st.raw v ∨ nbr e.node v ∧ opens v ∧ 0 < st.raw v ∧ st.raw v < e.level ∧
    st'.raw v = 0 ∧ ∃ e' ∈ st'.queue, e'.node = v ∧ e'.level = st.raw v
  dark : ∀ v, nbr e.node v → opens v → e.source ≠ some v → st'.raw v = 0 ∨ e.level ≤ st'.raw v
  kept : ∀ e' ∈ st.queue, e' = e ∨ e' ∈ st'.queue
  queued : ∀ e' ∈ st'.queue, e' ∈ st.queue ∨ e'.source = some e.node ∧ nbr e.node e'.node ∧
    opens e'.node ∧ 0 < e'.level ∧ e'.level < e.level ∧ e'.level = st.raw e'.node ∧
    st'.raw e'.node = 0
  found : st.found ⊆ st'.found
  /-- What is left around the vertex, and its own source, can light it. -/
  gather : opens e.node → (∀ v, nbr v e.node → e.source ≠ some v →
      (¬ opens v ∨ e.level ≤ st'.raw v) → glow src st'.raw v ≤ 1 ∨
        Holds st'.found e.node (glow src st'.raw v - 1)) ∧
    (src e.node = 0 ∨ Holds st'.found e.node (src e.node))
  lit : ∀ e' ∈ st'.found, e' ∈ st.found ∨ e'.node = e.node ∧ opens e.node ∧
    (e'.source = none ∧ e'.level ≤ src e.node ∨ ∃ z, e'.source = some z ∧ nbr z e.node ∧
      e'.level + 1 ≤ glow src st'.raw z ∧ (¬ opens z ∨ e.level ≤ st'.raw z))

def Safe (st : Flood V) (v : V) (k : ℕ) : Prop :=
  k ≤ src v ∨ k ≤ st.raw v ∧ ∀ e ∈ st.queue, e.level ≤ st.raw v

variable (base : V → ℕ) (blind : V → V → Prop)

/-- What holds while light is taken away. `base` is the light that a vertex has without neighbours;
over a `blind` edge light may be missed. -/
structure Dimming (st : Flood V) : Prop where
  shut : ∀ v, ¬ opens v → st.raw v = 0
  dark : ∀ e ∈ st.queue, st.raw e.node = 0
  /-- An opaque vertex that emits light is to be lit again. -/
  emits : ∀ e ∈ st.queue, ¬ opens e.node → src e.node = 0 ∨ Holds st.found e.node (src e.node)
  came : ∀ e ∈ st.queue, ∀ z, e.source = some z →
    st.raw z = 0 ∧ (¬ opens z → src z = 0 ∨ Holds st.found z (src z))
  foundRaw : ∀ e ∈ st.found, st.raw e.node ≤ e.level
  foundOpaque : ∀ e ∈ st.found, ¬ opens e.node → e.level ≤ src e.node
  foundLit : ∀ e ∈ st.found, e.level ≤ base e.node ∨
    ∃ z, nbr z e.node ∧ Safe src st z (e.level + 1)
  foundCame : ∀ e ∈ st.found, ∀ z, e.source = some z → Safe src st z (e.level + 1)
  /-- All that is brighter than its base has a neighbour that is brighter still, or that will take
  its light away or be lit again. -/
  supported : ∀ v, st.raw v ≤ base v ∨ ∃ u, nbr u v ∧ (st.raw v < glow src st.raw u ∨
    Holds st.queue u (st.raw v + 1) ∨ Holds st.found u (st.raw v + 1))
  sources : ∀ v, opens v → src v ≤ st.raw v ∨ (∃ e ∈ st.queue, e.node = v) ∨
    Holds st.found v (src v)
  closed : ∀ u v, nbr u v → opens v → glow src st.raw u ≤ glow src st.raw v + 1 ∨
    (∃ e ∈ st.queue, e.node = v) ∨ (∃ e ∈ st.queue, e.node = u ∧ opens u) ∨
    Holds st.found v (glow src st.raw u - 1) ∨ Holds st.found u (glow src st.raw u) ∨ blind u v

section Unlight

variable {nbr opens src base blind} {e : Entry V} {st st' : Flood V} {u v : V} {k : ℕ}

theorem Unlights.raw_le (h : Unlights nbr opens src e st st') (v : V) : st'.raw v ≤ st.raw v := by
  cases h.raw v with
  | inl h => exact h.le
  | inr h => exact h.2.2.2.2.1 ▸ Nat.zero_le _

theorem Unlights.glow_le (h : Unlights nbr opens src e st st') (v : V) :
    glow src st'.raw v ≤ glow src st.raw v := glow_mono (h.raw_le v)

/-- The queue of the next state is not brighter. -/
theorem Unlights.level_le (h : Unlights nbr opens src e st st') {e' : Entry V}
    (he : e' ∈ st'.queue) : e'.level ≤ e.level := by
  cases h.queued e' he with
  | inl he => exact h.brightest e' he
  | inr he => exact he.2.2.2.2.1.le

theorem Unlights.safe (h : Unlights nbr opens src e st st') (hsafe : Safe src st v k) :
    Safe src st' v k := by
  cases hsafe with
  | inl hk => exact Or.inl hk
  | inr hk =>
    have hsame : st'.raw v = st.raw v := by
      cases h.raw v with
      | inl h => exact h
      | inr hlost => exact absurd (hk.2 e h.mem) (Nat.not_le.mpr hlost.2.2.2.1)
    refine Or.inr ⟨hsame ▸ hk.1, fun e' he => ?_⟩
    rw [hsame]
    exact (h.level_le he).trans (hk.2 e h.mem)

/-- What is left around the vertex that is done is safe. -/
theorem Unlights.safe_of_left (h : Unlights nbr opens src e st st')
    (hd : Dimming nbr opens src base blind st) (hk : k ≤ glow src st'.raw v) (hleft : ¬ opens v ∨ e.level ≤ st'.raw v) : Safe src st' v k := by
  rcases Nat.le_total (st'.raw v) (src v) with hle | hle
  · exact Or.inl (hk.trans (Nat.max_eq_left hle).le)
  · have hk : k ≤ st'.raw v := hk.trans (Nat.max_eq_right hle).le
    cases hleft with
    | inl hshut =>
      have h0 : st'.raw v = 0 := Nat.le_zero.mp (hd.shut v hshut ▸ h.raw_le v)
      exact Or.inl (by omega)
    | inr hlevel => exact Or.inr ⟨hk, fun e' he => (h.level_le he).trans hlevel⟩

/-- A source that is dimmed is done at some time. -/
theorem Unlights.sources (h : Unlights nbr opens src e st st')
    (hd : Dimming nbr opens src base blind st) (v : V) (hopen : opens v) :
    src v ≤ st'.raw v ∨ (∃ e ∈ st'.queue, e.node = v) ∨ Holds st'.found v (src v) := by
  rcases h.raw v with hsame | ⟨-, -, -, -, -, e', he', hv, -⟩
  · rcases hd.sources v hopen with hsrc | ⟨e', he', hv⟩ | hfound
    · exact Or.inl (hsame ▸ hsrc)
    · cases h.kept e' he' with
      | inl heq =>
        subst heq
        subst hv
        cases (h.gather hopen).2 with
        | inl h0 => exact Or.inl (h0 ▸ Nat.zero_le _)
        | inr hfound => exact Or.inr (Or.inr hfound)
      | inr hin => exact Or.inr (Or.inl ⟨e', hin, hv⟩)
    · exact Or.inr (Or.inr (hfound.mono h.found))
  · exact Or.inr (Or.inl ⟨e', he', hv⟩)

theorem Unlights.supported (h : Unlights nbr opens src e st st')
    (hd : Dimming nbr opens src base blind st) (v : V) :
    st'.raw v ≤ base v ∨ ∃ u, nbr u v ∧ (st'.raw v < glow src st'.raw u ∨
      Holds st'.queue u (st'.raw v + 1) ∨ Holds st'.found u (st'.raw v + 1)) := by
  rcases h.raw v with hsame | ⟨-, -, -, -, hzero, -⟩
  · rw [hsame]
    by_cases hpos : st.raw v = 0
    · exact Or.inl (hpos ▸ Nat.zero_le _)
    · rcases hd.supported v with hbase | ⟨u, hnbr, hu⟩
      · exact Or.inl hbase
      · rcases hu with hglow | ⟨e', he', hnode, hlevel⟩ | hfound
        · rcases h.raw u with husame | ⟨-, -, -, -, huzero, e', he', hnode, hlevel⟩
          · refine Or.inr ⟨u, hnbr, Or.inl ?_⟩
            rwa [glow, husame]
          · rcases Nat.lt_or_ge (st.raw v) (src u) with hsrc | hsrc
            · exact Or.inr ⟨u, hnbr, Or.inl (hsrc.trans_le (src_le_glow _ _ u))⟩
            · have hraw : st.raw v < st.raw u := (lt_max_iff.mp hglow).resolve_left hsrc.not_gt
              exact Or.inr ⟨u, hnbr, Or.inr (Or.inl ⟨e', he', hnode, hlevel ▸ hraw⟩)⟩
        · cases h.kept e' he' with
          | inl heq =>
            -- the light comes from the vertex that is done, so it is taken away
            subst heq
            subst hnode
            have hopen : opens v := by
              by_contra hshut
              exact hpos (hd.shut v hshut)
            have hcame : e'.source ≠ some v := fun hs => hpos (hd.came e' he' v hs).1
            cases h.dark v hnbr hopen hcame with
            | inl hzero => exact absurd (hsame ▸ hzero) hpos
            | inr hle => exact absurd (hsame ▸ hle) (Nat.not_le.mpr hlevel)
          | inr hin => exact Or.inr ⟨u, hnbr, Or.inr (Or.inl ⟨e', hin, hnode, hlevel⟩)⟩
        · exact Or.inr ⟨u, hnbr, Or.inr (Or.inr (hfound.mono h.found))⟩
  · exact Or.inl (hzero ▸ Nat.zero_le _)

/-- Light that is lost over no edge but a blind one, whatever was done. -/
theorem Unlights.closed (hsymm : ∀ u v, nbr u v → nbr v u) (h : Unlights nbr opens src e st st')
    (hd : Dimming nbr opens src base blind st) (hnbr : nbr u v) (hopen : opens v) :
    glow src st'.raw u ≤ glow src st'.raw v + 1 ∨ (∃ e ∈ st'.queue, e.node = v) ∨
      (∃ e ∈ st'.queue, e.node = u ∧ opens u) ∨ Holds st'.found v (glow src st'.raw u - 1) ∨
      Holds st'.found u (glow src st'.raw u) ∨ blind u v := by
  have hu := h.glow_le u
  rcases hd.closed u v hnbr hopen with hle | ⟨e', he', hnode⟩ | ⟨e', he', hnode, hopenu⟩ | hfound |
    hfound | hblind
  · rcases h.raw v with hsame | ⟨-, -, -, -, -, e', he', hnode, -⟩
    · left
      have : glow src st'.raw v = glow src st.raw v := by rw [glow, glow, hsame]
      omega
    · exact Or.inr (Or.inl ⟨e', he', hnode⟩)
  · cases h.kept e' he' with
    | inr hin => exact Or.inr (Or.inl ⟨e', hin, hnode⟩)
    | inl heq =>
      subst heq
      subst hnode
      obtain ⟨hgather, -⟩ := h.gather hopen
      -- a neighbour that is left was counted, and one that is dark emits its light itself
      have hleft : e'.source ≠ some u → (¬ opens u ∨ e'.level ≤ st'.raw u) →
          glow src st'.raw u ≤ glow src st'.raw e'.node + 1 ∨
            Holds st'.found e'.node (glow src st'.raw u - 1) := by
        intro hcame hl
        cases hgather u hnbr hcame hl with
        | inl hone => exact Or.inl (by omega)
        | inr hfound => exact Or.inr hfound
      have hdark : opens u → st'.raw u = 0 → glow src st'.raw u ≤ glow src st'.raw e'.node + 1 ∨
          (∃ e ∈ st'.queue, e.node = u ∧ opens u) ∨ Holds st'.found u (glow src st'.raw u) := by
        intro hopenu hzero
        have hglow : glow src st'.raw u = src u := by simp [glow, hzero]
        rw [hglow]
        rcases h.sources hd u hopenu with hsrc | ⟨e, he, hnode⟩ | hfound
        · exact Or.inl (by omega)
        · exact Or.inr (Or.inl ⟨e, he, hnode, hopenu⟩)
        · exact Or.inr (Or.inr hfound)
      by_cases hcame : e'.source = some u
      · obtain ⟨hzero, hemits⟩ := hd.came e' he' u hcame
        have hzero : st'.raw u = 0 := Nat.le_zero.mp (hzero ▸ h.raw_le u)
        by_cases hopenu : opens u
        · rcases hdark hopenu hzero with h | h | h
          · exact Or.inl h
          · exact Or.inr (Or.inr (Or.inl h))
          · exact Or.inr (Or.inr (Or.inr (Or.inr (Or.inl h))))
        · have hglow : glow src st'.raw u = src u := by simp [glow, hzero]
          rw [hglow]
          cases hemits hopenu with
          | inl h0 => exact Or.inl (by omega)
          | inr hfound =>
            exact Or.inr (Or.inr (Or.inr (Or.inr (Or.inl (hfound.mono h.found)))))
      · by_cases hopenu : opens u
        · rcases h.dark u (hsymm u _ hnbr) hopenu hcame with hzero | hle
          · rcases hdark hopenu hzero with h | h | h
            · exact Or.inl h
            · exact Or.inr (Or.inr (Or.inl h))
            · exact Or.inr (Or.inr (Or.inr (Or.inr (Or.inl h))))
          · rcases hleft hcame (Or.inr hle) with h | h
            · exact Or.inl h
            · exact Or.inr (Or.inr (Or.inr (Or.inl h)))
        · rcases hleft hcame (Or.inl hopenu) with h | h
          · exact Or.inl h
          · exact Or.inr (Or.inr (Or.inr (Or.inl h)))
  · cases h.kept e' he' with
    | inr hin => exact Or.inr (Or.inr (Or.inl ⟨e', hin, hnode, hopenu⟩))
    | inl heq =>
      subst heq
      subst hnode
      have hzero : st'.raw e'.node = 0 := Nat.le_zero.mp (hd.dark e' he' ▸ h.raw_le e'.node)
      have hglow : glow src st'.raw e'.node = src e'.node := by simp [glow, hzero]
      rw [hglow]
      cases (h.gather hopenu).2 with
      | inl h0 => exact Or.inl (by omega)
      | inr hfound => exact Or.inr (Or.inr (Or.inr (Or.inr (Or.inl hfound))))
  · exact Or.inr (Or.inr (Or.inr (Or.inl ((hfound.mono h.found).of_le (Nat.sub_le_sub_right hu 1)))))
  · exact Or.inr (Or.inr (Or.inr (Or.inr (Or.inl ((hfound.mono h.found).of_le hu)))))
  · exact Or.inr (Or.inr (Or.inr (Or.inr (Or.inr hblind))))

theorem Dimming.step (hbase : ∀ v, src v ≤ base v) (hsymm : ∀ u v, nbr u v → nbr v u)
    (hd : Dimming nbr opens src base blind st) (h : Unlights nbr opens src e st st') :
    Dimming nbr opens src base blind st' := by
  have hzero : ∀ v, st.raw v = 0 → st'.raw v = 0 := fun v h0 => Nat.le_zero.mp (h0 ▸ h.raw_le v)
  refine ⟨fun v hv => hzero v (hd.shut v hv), fun e' he' => ?_, fun e' he' => ?_,
    fun e' he' z hz => ?_, fun e' he' => ?_, fun e' he' => ?_, fun e' he' => ?_,
    fun e' he' z hz => ?_, h.supported hd, h.sources hd,
    fun u v => h.closed hsymm hd⟩
  · rcases h.queued e' he' with hin | ⟨-, -, -, -, -, -, hdark⟩
    · exact hzero _ (hd.dark e' hin)
    · exact hdark
  · intro hshut
    rcases h.queued e' he' with hin | ⟨-, -, hopen, -⟩
    · exact (hd.emits e' hin hshut).imp_right fun hf => hf.mono h.found
    · exact absurd hopen hshut
  · rcases h.queued e' he' with hin | ⟨hs, -⟩
    · obtain ⟨h0, hf⟩ := hd.came e' hin z hz
      exact ⟨hzero z h0, fun ho => (hf ho).imp_right fun hf => hf.mono h.found⟩
    · obtain rfl := Option.some.inj (hs.symm.trans hz)
      exact ⟨hzero _ (hd.dark e h.mem),
        fun ho => (hd.emits e h.mem ho).imp_right fun hf => hf.mono h.found⟩
  · rcases h.lit e' he' with hin | ⟨hnode, -⟩
    · exact (h.raw_le _).trans (hd.foundRaw e' hin)
    · rw [hnode, hzero _ (hd.dark e h.mem)]
      exact Nat.zero_le _
  · intro hshut
    rcases h.lit e' he' with hin | ⟨hnode, hopen, -⟩
    · exact hd.foundOpaque e' hin hshut
    · exact absurd (hnode ▸ hopen) hshut
  · rcases h.lit e' he' with hin | ⟨hnode, -, hlit⟩
    · exact (hd.foundLit e' hin).imp_right fun ⟨z, hz, hs⟩ => ⟨z, hz, h.safe hs⟩
    · rw [hnode]
      rcases hlit with ⟨-, hsrc⟩ | ⟨z, -, hz, hlevel, hleft⟩
      · exact Or.inl (hsrc.trans (hbase e.node))
      · exact Or.inr ⟨z, hz, h.safe_of_left hd hlevel hleft⟩
  · rcases h.lit e' he' with hin | ⟨-, -, hlit⟩
    · exact h.safe (hd.foundCame e' hin z hz)
    · rcases hlit with ⟨hnone, -⟩ | ⟨z', hs, -, hlevel, hleft⟩
      · rw [hnone] at hz
        cases hz
      · obtain rfl := Option.some.inj (hs.symm.trans hz)
        exact h.safe_of_left hd hlevel hleft

end Unlight

/-! ### What loses its light -/

/-- From the queue on, along edges over which the light falls. -/
inductive Lost (st : Flood V) : V → ℕ → Prop
  | queued {e : Entry V} (he : e ∈ st.queue) : Lost st e.node e.level
  | next {u v : V} {k : ℕ} (h : Lost st u k) (hnbr : nbr u v) (hopen : opens v)
    (hpos : 0 < st.raw v) (hlt : st.raw v < k) : Lost st v (st.raw v)

def Done (raw : V → ℕ) (u : V) (k : ℕ) : Prop :=
  ∀ v, nbr u v → opens v → raw v = 0 ∨ k ≤ raw v

/-- Nothing else than what is `Lost` from the first state is dark, queued or found. -/
structure Losing (st₀ st : Flood V) : Prop where
  queue : ∀ e ∈ st.queue, Lost nbr opens st₀ e.node e.level
  dark : ∀ e ∈ st.queue, st.raw e.node = 0
  came : ∀ e ∈ st.queue, ∀ z, e.source = some z → st.raw z = 0
  raw : ∀ v, st.raw v = st₀.raw v ∨ st.raw v = 0 ∧ Lost nbr opens st₀ v (st₀.raw v) ∧
    ((∃ e ∈ st.queue, e.node = v ∧ e.level = st₀.raw v) ∨ Done nbr opens st.raw v (st₀.raw v))
  start : ∀ e ∈ st₀.queue, e ∈ st.queue ∨ Done nbr opens st.raw e.node e.level
  found : ∀ e ∈ st.found, e ∈ st₀.found ∨ ∃ k, Lost nbr opens st₀ e.node k

section Lost

variable {nbr opens src base blind} {e : Entry V} {st₀ st st' : Flood V} {u v : V} {k : ℕ}

theorem Done.mono {raw raw' : V → ℕ} (h : Done nbr opens raw u k)
    (hraw : ∀ v, raw' v = raw v ∨ raw' v = 0) : Done nbr opens raw' u k := by
  intro v hnbr hopen
  cases hraw v with
  | inl hsame => exact hsame ▸ h v hnbr hopen
  | inr hzero => exact Or.inl hzero

theorem losing_refl (hdark : ∀ e ∈ st.queue, st.raw e.node = 0)
    (hcame : ∀ e ∈ st.queue, ∀ z, e.source = some z → st.raw z = 0) :
    Losing nbr opens st st :=
  ⟨fun _ he => .queued he, hdark, hcame, fun _ => Or.inl rfl, fun _ he => Or.inl he,
    fun _ he => Or.inl he⟩

theorem Losing.step (hl : Losing nbr opens st₀ st) (h : Unlights nbr opens src e st st') :
    Losing nbr opens st₀ st' := by
  have hraw : ∀ v, st'.raw v = st.raw v ∨ st'.raw v = 0 := fun v =>
    (h.raw v).imp_right fun hlost => hlost.2.2.2.2.1
  have hzero : ∀ v, st.raw v = 0 → st'.raw v = 0 := fun v h0 => Nat.le_zero.mp (h0 ▸ h.raw_le v)
  have hdone : Done nbr opens st'.raw e.node e.level := by
    intro v hnbr hopen
    by_cases hs : e.source = some v
    · exact Or.inl (hzero v (hl.came e h.mem v hs))
    · exact h.dark v hnbr hopen hs
  have hsame : ∀ v, 0 < st.raw v → st.raw v = st₀.raw v := fun v hpos =>
    (hl.raw v).resolve_right fun hlost => absurd hlost.1 hpos.ne'
  refine ⟨fun e' he' => ?_, fun e' he' => ?_, fun e' he' z hz => ?_, fun v => ?_, fun e' he' => ?_,
    fun e' he' => ?_⟩
  · rcases h.queued e' he' with hin | ⟨-, hnbr, hopen, hpos, hlt, hlevel, -⟩
    · exact hl.queue e' hin
    · have h0 := hsame e'.node (hlevel ▸ hpos)
      rw [hlevel, h0]
      rw [hlevel, h0] at hlt hpos
      exact .next (hl.queue e h.mem) hnbr hopen hpos hlt
  · rcases h.queued e' he' with hin | ⟨-, -, -, -, -, -, hdark⟩
    · exact hzero _ (hl.dark e' hin)
    · exact hdark
  · rcases h.queued e' he' with hin | ⟨hs, -⟩
    · exact hzero z (hl.came e' hin z hz)
    · obtain rfl := Option.some.inj (hs.symm.trans hz)
      exact hzero _ (hl.dark e h.mem)
  · rcases h.raw v with hkept | ⟨hnbr, hopen, hpos, hlt, hdark, e', he', hnode, hlevel⟩
    · rcases hl.raw v with hv | ⟨hv, hlost, hpend | hd⟩
      · exact Or.inl (hkept.trans hv)
      · obtain ⟨e', he', hnode, hlevel⟩ := hpend
        refine Or.inr ⟨hkept.trans hv, hlost, ?_⟩
        cases h.kept e' he' with
        | inl heq =>
          subst heq
          rw [hnode, hlevel] at hdone
          exact Or.inr hdone
        | inr hin => exact Or.inl ⟨e', hin, hnode, hlevel⟩
      · exact Or.inr ⟨hkept.trans hv, hlost, Or.inr (hd.mono hraw)⟩
    · have h0 := hsame v hpos
      rw [h0] at hpos hlt hlevel
      exact Or.inr ⟨hdark, .next (hl.queue e h.mem) hnbr hopen hpos hlt,
        Or.inl ⟨e', he', hnode, hlevel⟩⟩
  · rcases hl.start e' he' with hin | hd
    · exact (h.kept e' hin).elim (fun heq => Or.inr (heq ▸ hdone)) Or.inl
    · exact Or.inr (hd.mono hraw)
  · rcases h.lit e' he' with hin | ⟨hnode, -⟩
    · exact hl.found e' hin
    · exact Or.inr ⟨e.level, hnode ▸ hl.queue e h.mem⟩

/-- When the queue is empty all that is lost is dark. -/
theorem Losing.raw_eq_zero (hl : Losing nbr opens st₀ st) (hempty : st.queue = ∅)
    (hstart : ∀ e ∈ st₀.queue, st₀.raw e.node = 0) (h : Lost nbr opens st₀ v k) :
    st.raw v = 0 := by
  have hnone : ∀ e, e ∉ st.queue := fun e he => by simp [hempty] at he
  have hboth : Done nbr opens st.raw v k ∧ st.raw v = 0 := by
    induction h with
    | @queued e he =>
      refine ⟨(hl.start e he).resolve_left (hnone e), ?_⟩
      rcases hl.raw e.node with hsame | ⟨h0, -⟩
      · exact hsame.trans (hstart e he)
      · exact h0
    | @next u v k _ hnbr hopen hpos hlt ih =>
      have hzero : st.raw v = 0 := by
        rcases ih.1 v hnbr hopen with h0 | hle
        · exact h0
        · rcases hl.raw v with hsame | ⟨h0, -⟩
          · exact absurd hle (by omega)
          · exact h0
      rcases hl.raw v with hsame | ⟨-, -, ⟨e, he, -⟩ | hd⟩
      · exact absurd hzero (by omega)
      · exact absurd he (hnone e)
      · exact ⟨hd, hzero⟩
  exact hboth.2

end Lost

/-! ### Spreading it again -/

/-- What is found has its light stored, the brightest of a vertex. -/
structure Kindles (st : Flood V) (raw : V → ℕ) : Prop where
  shut : ∀ v, ¬ opens v → raw v = st.raw v
  same : ∀ v, (∀ e ∈ st.found, e.node ≠ v) → raw v = st.raw v
  lit : ∀ v, opens v → (∃ e ∈ st.found, e.node = v) →
    Holds st.found v (raw v) ∧ ∀ e ∈ st.found, e.node = v → e.level ≤ raw v

/-- An entry of the queue is done: its neighbours are as bright as it can make them. -/
structure Spreads (e : Entry V) (raw raw' : V → ℕ) (queue queue' : Set (Entry V)) : Prop where
  mem : e ∈ queue
  raised : ∀ v, raw' v = raw v ∨ nbr e.node v ∧ opens v ∧ raw v < raw' v ∧ raw' v + 1 = e.level ∧
    ∃ e' ∈ queue', e'.node = v ∧ e'.level = raw' v
  reach : ∀ v, nbr e.node v → opens v → e.source ≠ some v → e.level ≤ raw' v + 1
  kept : ∀ e' ∈ queue, e' = e ∨ e' ∈ queue'
  queued : ∀ e' ∈ queue', e' ∈ queue ∨ e'.source = some e.node ∧ opens e'.node ∧
    e'.level + 1 = e.level ∧ raw' e'.node = e'.level ∧ raw e'.node < e'.level

/-- What holds while light spreads, from the state `st` with `raw₁` kindled. -/
structure Spreading (st : Flood V) (raw₁ raw : V → ℕ) (queue : Set (Entry V)) : Prop where
  shut : ∀ v, ¬ opens v → raw v = 0
  grown : ∀ v, raw₁ v ≤ raw v
  level : ∀ e ∈ queue, e.level ≤ glow src raw e.node
  came : ∀ e ∈ queue, ∀ z, e.source = some z → e.level ≤ glow src raw z + 1
  supported : ∀ v, raw v ≤ base v ∨ ∃ u, nbr u v ∧ raw v < glow src raw u
  closed : ∀ u v, nbr u v → opens v → glow src raw u ≤ glow src raw v + 1 ∨
    Holds queue u (glow src raw u) ∨
    blind u v ∧ glow src raw u = glow src raw₁ u ∧ ∀ e ∈ st.found, opens u → e.node ≠ u
  lights : ∀ v, opens v → src v ≤ raw₁ v
  /-- A vertex that gives light has been found, or it is brighter than it was. -/
  awake : ∀ e ∈ queue, (∃ e' ∈ st.found, e'.node = e.node) ∨ glow src raw₁ e.node < glow src raw e.node
  lit : ∀ v, raw v = raw₁ v ∨ ∃ u, nbr u v ∧ raw v < glow src raw u ∧
    ((∃ e' ∈ st.found, e'.node = u) ∨ glow src raw₁ u < glow src raw u)

section Spread

variable {nbr opens src base blind} {e : Entry V} {st : Flood V} {raw₁ raw raw' : V → ℕ}
  {queue queue' : Set (Entry V)} {u v : V}

theorem Kindles.le (hk : Kindles opens st raw) (hd : Dimming nbr opens src base blind st) (v : V) :
    st.raw v ≤ raw v := by
  by_cases hopen : opens v
  · by_cases hin : ∃ e ∈ st.found, e.node = v
    · obtain ⟨e, he, rfl⟩ := hin
      exact (hd.foundRaw e he).trans ((hk.lit _ hopen ⟨e, he, rfl⟩).2 e he rfl)
    · exact (hk.same v fun e he hv => hin ⟨e, he, hv⟩).ge
  · exact (hk.shut v hopen).ge

theorem Kindles.level_le (hk : Kindles opens st raw) (hd : Dimming nbr opens src base blind st)
    (he : e ∈ st.found) : e.level ≤ glow src raw e.node := by
  by_cases hopen : opens e.node
  · exact ((hk.lit _ hopen ⟨e, he, rfl⟩).2 e he rfl).trans (raw_le_glow _ _ _)
  · exact (hd.foundOpaque e he hopen).trans (src_le_glow _ _ _)

theorem Kindles.safe (hk : Kindles opens st raw) (hd : Dimming nbr opens src base blind st) {k : ℕ}
    (h : Safe src st v k) : k ≤ glow src raw v := by
  cases h with
  | inl h => exact h.trans (src_le_glow _ _ v)
  | inr h => exact (h.1.trans (hk.le hd v)).trans (raw_le_glow _ _ v)

/-- A vertex that is found waits with all its light. -/
theorem Kindles.holds (hk : Kindles opens st raw) (hopen : opens u) (hsrc : src u ≤ raw u)
    (h : ∃ e ∈ st.found, e.node = u) : Holds st.found u (glow src raw u) := by
  rw [glow, Nat.max_eq_right hsrc]
  exact (hk.lit u hopen h).1

/-- With an empty queue and what is found kindled, light can spread. -/
theorem Dimming.spreading (hd : Dimming nbr opens src base blind st) (hempty : st.queue = ∅)
    (hk : Kindles opens st raw) : Spreading nbr opens src base blind st raw raw st.found := by
  have hnone : ∀ e, e ∉ st.queue := fun e he => by simp [hempty] at he
  have hsources : ∀ v, opens v → src v ≤ raw v := by
    intro v hopen
    rcases hd.sources v hopen with hsrc | ⟨e, he, -⟩ | ⟨e, he, hnode, hlevel⟩
    · exact hsrc.trans (hk.le hd v)
    · exact absurd he (hnone e)
    · exact hlevel.trans ((hk.lit v hopen ⟨e, he, hnode⟩).2 e he hnode)
  refine ⟨fun v hv => (hk.shut v hv).trans (hd.shut v hv), fun _ => Nat.le_refl _,
    fun e he => hk.level_le hd he, fun e he z hz => ?_, fun v => ?_, fun u v hnbr hopen => ?_,
    hsources, fun e he => Or.inl ⟨e, he, rfl⟩, fun v => Or.inl rfl⟩
  · have := hk.safe hd (hd.foundCame e he z hz)
    omega
  · by_cases hin : opens v ∧ ∃ e ∈ st.found, e.node = v
    · obtain ⟨e, he, rfl, hlevel⟩ := (hk.lit v hin.1 hin.2).1
      rcases hd.foundLit e he with hbase | ⟨z, hnbr, hsafe⟩
      · exact Or.inl (hlevel.trans hbase)
      · exact Or.inr ⟨z, hnbr, lt_of_le_of_lt hlevel (hk.safe hd hsafe)⟩
    · have hsame : raw v = st.raw v := by
        by_cases hopen : opens v
        · exact hk.same v fun e he hv => hin ⟨hopen, e, he, hv⟩
        · exact hk.shut v hopen
      rw [hsame]
      rcases hd.supported v with hbase | ⟨u, hnbr, hu⟩
      · exact Or.inl hbase
      · refine Or.inr ⟨u, hnbr, ?_⟩
        rcases hu with hlt | ⟨e, he, -⟩ | ⟨e, he, rfl, hlevel⟩
        · exact hlt.trans_le (glow_mono (hk.le hd u))
        · exact absurd he (hnone e)
        · exact Nat.lt_of_succ_le (hlevel.trans (hk.level_le hd he))
  · by_cases hin : opens u ∧ ∃ e ∈ st.found, e.node = u
    · exact Or.inr (Or.inl (hk.holds hin.1 (hsources u hin.1) hin.2))
    · have hsame : glow src raw u = glow src st.raw u := by
        have : raw u = st.raw u := by
          by_cases hopen : opens u
          · exact hk.same u fun e he hu => hin ⟨hopen, e, he, hu⟩
          · exact hk.shut u hopen
        rw [glow, glow, this]
      have hv : glow src st.raw v ≤ glow src raw v := glow_mono (hk.le hd v)
      rcases hd.closed u v hnbr hopen with hle | ⟨e, he, -⟩ | ⟨e, he, -⟩ | ⟨e, he, rfl, hlevel⟩ |
        hfound | hblind
      · left
        omega
      · exact absurd he (hnone e)
      · exact absurd he (hnone e)
      · have := hk.level_le hd he
        left
        omega
      · exact Or.inr (Or.inl (hsame ▸ hfound))
      · exact Or.inr (Or.inr ⟨hblind, rfl, fun e he hopenu hu => hin ⟨hopenu, e, he, hu⟩⟩)

theorem Spreads.le (h : Spreads nbr opens e raw raw' queue queue') (v : V) : raw v ≤ raw' v := by
  cases h.raised v with
  | inl h => exact h.ge
  | inr h => exact h.2.2.1.le

theorem Spreading.step (hs : Spreading nbr opens src base blind st raw₁ raw queue)
    (h : Spreads nbr opens e raw raw' queue queue') :
    Spreading nbr opens src base blind st raw₁ raw' queue' := by
  have hglow : ∀ v, glow src raw v ≤ glow src raw' v := fun v => glow_mono (h.le v)
  have hlevel := hs.level e h.mem
  have hawake : (∃ e' ∈ st.found, e'.node = e.node) ∨
      glow src raw₁ e.node < glow src raw' e.node :=
    (hs.awake e h.mem).imp_right fun hlt => hlt.trans_le (hglow e.node)
  refine ⟨fun v hv => ?_, fun v => (hs.grown v).trans (h.le v), fun e' he' => ?_,
    fun e' he' z hz => ?_, fun v => ?_, fun u v hnbr hopen => ?_, hs.lights, fun e' he' => ?_,
    fun v => ?_⟩
  · cases h.raised v with
    | inl hsame => exact hsame.trans (hs.shut v hv)
    | inr hlit => exact absurd hlit.2.1 hv
  · rcases h.queued e' he' with hin | ⟨-, -, -, hraw, -⟩
    · exact (hs.level e' hin).trans (hglow _)
    · exact hraw ▸ raw_le_glow _ _ _
  · rcases h.queued e' he' with hin | ⟨hsource, -, hlt, -, -⟩
    · have := hs.came e' hin z hz
      have := hglow z
      omega
    · obtain rfl := Option.some.inj (hsource.symm.trans hz)
      have := hglow e.node
      omega
  · rcases h.raised v with hsame | ⟨hnbr, -, -, hlt, -⟩
    · rw [hsame]
      rcases hs.supported v with hbase | ⟨u, hnbr, hlt⟩
      · exact Or.inl hbase
      · exact Or.inr ⟨u, hnbr, hlt.trans_le (hglow u)⟩
    · have := hglow e.node
      exact Or.inr ⟨e.node, hnbr, by omega⟩
  · have hu : glow src raw' u = glow src raw u ∨ Holds queue' u (glow src raw' u) := by
      rcases h.raised u with hsame | ⟨-, -, hlt, -, e', he', hnode, heq⟩
      · exact Or.inl (by rw [glow, glow, hsame])
      · rcases Nat.le_total (raw' u) (src u) with hle | hle
        · left
          rw [glow, glow, Nat.max_eq_left hle, Nat.max_eq_left (hlt.le.trans hle)]
        · right
          rw [glow, Nat.max_eq_right hle]
          exact ⟨e', he', hnode, heq.ge⟩
    cases hu with
    | inr hholds => exact Or.inr (Or.inl hholds)
    | inl hsame =>
      rw [hsame]
      have hv := hglow v
      rcases hs.closed u v hnbr hopen with hle | ⟨e', he', hnode, hle⟩ | hblind
      · left
        omega
      · cases h.kept e' he' with
        | inr hin => exact Or.inr (Or.inl ⟨e', hin, hnode, hle⟩)
        | inl heq =>
          subst heq
          subst hnode
          left
          by_cases hcame : e'.source = some v
          · have := hs.came e' he' v hcame
            omega
          · have := h.reach v hnbr hopen hcame
            have := raw_le_glow src raw' v
            omega
      · exact Or.inr (Or.inr hblind)
  · rcases h.queued e' he' with hin | ⟨-, hopen, -, hraw, hlt⟩
    · exact (hs.awake e' hin).imp_right fun hlt => hlt.trans_le (hglow _)
    · right
      have := hs.grown e'.node
      have := raw_le_glow src raw' e'.node
      rw [glow, Nat.max_eq_right (hs.lights e'.node hopen)]
      omega
  · rcases h.raised v with hsame | ⟨hnbr, -, -, hlt, -⟩
    · rw [hsame]
      rcases hs.lit v with heq | ⟨u, hnbr, hlt, hu⟩
      · exact Or.inl heq
      · exact Or.inr ⟨u, hnbr, hlt.trans_le (hglow u),
          hu.imp_right fun hlt => hlt.trans_le (hglow u)⟩
    · have := hglow e.node
      exact Or.inr ⟨e.node, hnbr, by omega, hawake⟩

end Spread

/-! ### What is reached -/

section Reached

variable {nbr opens src base blind} {st : Flood V} {raw₁ raw : V → ℕ} {queue : Set (Entry V)} {B : ℕ}

/-- No vertex is brighter than all light makes it. -/
theorem Spreading.glow_le (hs : Spreading nbr opens src base blind st raw₁ raw queue)
    (hbase : ∀ v, src v ≤ base v) (hB : ∀ v, base v ≤ B) (hraw : ∀ v, raw v ≤ B) (v : V) :
    glow src raw v ≤ lightAt nbr opens base v := by
  have hF : ∀ v, glow src raw v ≤ B := fun v => max_le ((hbase v).trans (hB v)) (hraw v)
  apply le_lightAt_of_supported hB hF
  intro v
  rcases Nat.le_total (raw v) (src v) with hle | hle
  · have hglow : glow src raw v = src v := Nat.max_eq_left hle
    exact Or.inl (hglow ▸ hbase v)
  · have hglow : glow src raw v = raw v := Nat.max_eq_right hle
    rw [hglow]
    rcases hs.supported v with hv | ⟨u, hnbr, hlt⟩
    · exact Or.inl hv
    · by_cases hopen : opens v
      · exact Or.inr ⟨u, hnbr, hopen, hlt⟩
      · exact Or.inl (hs.shut v hopen ▸ Nat.zero_le _)

/-- Where light is missing, all the light that the brightest such vertex should have would come over
blind edges. -/
theorem Spreading.exists_blind (hs : Spreading nbr opens src base blind st raw₁ raw ∅)
    (hbase : ∀ v, src v ≤ base v) (hB : ∀ v, base v ≤ B) (hraw : ∀ v, raw v ≤ B)
    (hlit : ∀ v, base v ≤ glow src raw v) {v : V}
    (hlt : glow src raw v < lightAt nbr opens base v) :
    ∃ v, opens v ∧ base v < lightAt nbr opens base v ∧
      (∃ u, nbr u v ∧ lightAt nbr opens base v < lightAt nbr opens base u) ∧
      ∀ u, nbr u v → lightAt nbr opens base v < lightAt nbr opens base u →
        blind u v ∧ glow src raw₁ u = lightAt nbr opens base u ∧
          ∀ e ∈ st.found, opens u → e.node ≠ u := by
  obtain ⟨v, hlt, hmax⟩ := (measure fun v => B - lightAt nbr opens base v).wf.has_min
    {v | glow src raw v < lightAt nbr opens base v} ⟨v, hlt⟩
  have hlt : glow src raw v < lightAt nbr opens base v := hlt
  -- what should be brighter is as bright as it should be
  have hall : ∀ u, lightAt nbr opens base v < lightAt nbr opens base u →
      glow src raw u = lightAt nbr opens base u := by
    intro u hu
    apply Nat.le_antisymm (hs.glow_le hbase hB hraw u)
    by_contra hnot
    refine hmax u (Nat.lt_of_not_le hnot) ?_
    have := lightAt_le nbr opens hB u
    change B - _ < B - _
    omega
  have hhigh : base v < lightAt nbr opens base v := (hlit v).trans_lt hlt
  rcases lightAt_supported nbr opens hB v with hle | ⟨u, hnbr, hopen, hu⟩
  · exact absurd hle hhigh.not_ge
  · refine ⟨v, hopen, hhigh, ⟨u, hnbr, hu⟩, fun u hnbr hu => ?_⟩
    have hglow := hall u hu
    rcases hs.closed u v hnbr hopen with hle | ⟨e, he, -⟩ | ⟨hblind, hsame, hfound⟩
    · exact absurd hle (by omega)
    · exact absurd he (Set.notMem_empty e)
    · exact ⟨hblind, hsame.symm.trans hglow, hfound⟩

end Reached

end Freeminer.Lib
