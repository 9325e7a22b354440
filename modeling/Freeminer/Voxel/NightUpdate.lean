import Freeminer.Voxel.NightLight

/-! Updating the night light after nodes have been replaced: from the queues of the changed nodes to
the light of the whole map. -/

namespace Freeminer.Voxel

open Lib
open Block (MapNode)

/-! ### The map with the new nodes -/

/-- A map some of whose nodes have been replaced, with the list of them. -/
structure Replaced (m₀ m : Map) (oldnodes : OldNodes) : Prop where
  ndef : m.ndef = m₀.ndef
  loaded : ∀ p, (m.getNode p).isSome = (m₀.getNode p).isSome
  same : ∀ p, (∀ o ∈ oldnodes, o.1 ≠ p) → m.getNode p = m₀.getNode p
  dark : ∀ o ∈ oldnodes, ∀ bank, m.raw bank o.1 = 0
  /-- Of each changed node, the first that was replaced. -/
  first : ∀ o ∈ oldnodes, ∃ n, m₀.getNode o.1 = some n ∧ (o.1, n) ∈ oldnodes

section Replaced

variable {m₀ m : Map} {oldnodes : OldNodes} {p q : V3} {n : MapNode}

theorem replaced_refl (m : Map) : Replaced m m [] :=
  ⟨rfl, fun _ => rfl, fun _ _ => rfl, by simp, by simp⟩

theorem Replaced.step (h : Replaced m₀ m oldnodes) (change : V3 × MapNode) :
    Replaced m₀ (replaceNode (m, oldnodes) change).1 (replaceNode (m, oldnodes) change).2 := by
  unfold replaceNode
  dsimp only
  cases hn : m.getNode change.1 with
  | none => exact h
  | some oldnode =>
    dsimp only
    generalize hset : setLight (setLight change.2 .day 0 (m.getLightingFlags change.2)) .night 0
      (m.getLightingFlags change.2) = n
    have hflags : m.getLightingFlags n = m.getLightingFlags change.2 := by
      rw [← hset, Map.getLightingFlags, setLight_param0, setLight_param0]
      rfl
    have hget : ∀ p, (m.setNode change.1 n).getNode p =
        if p = change.1 then some n else m.getNode p := by
      intro p
      rw [Map.getNode_setNode]
      split_ifs with hp
      · rw [hp, hn]
        rfl
      · rfl
    refine ⟨h.ndef, fun p => ?_, fun p hp => ?_, fun o ho bank => ?_, fun o ho => ?_⟩
    · rw [hget, ← h.loaded]
      split_ifs with hp
      · rw [hp, hn]
        rfl
      · rfl
    · rw [hget, if_neg fun heq => hp (change.1, oldnode) (by simp) heq.symm]
      exact h.same p fun o ho => hp o (List.mem_append_left _ ho)
    · by_cases hp : o.1 = change.1
      · have hnew : (m.setNode change.1 n).getNode o.1 = some n := by rw [hget, if_pos hp]
        rw [Map.raw_of_getNode hnew]
        change getLightRaw n bank (m.getLightingFlags n) = 0
        rw [hflags, ← hset, getLightRaw_setLight (Nat.zero_le _),
          getLightRaw_setLight (Nat.zero_le _)]
        cases bank <;> cases hf : (m.getLightingFlags change.2).hasLight <;>
          simp [getLightRaw, hf]
      · have hin : o ∈ oldnodes := by
          rcases List.mem_append.mp ho with hin | heq
          · exact hin
          · rw [List.mem_singleton] at heq
            exact absurd (congrArg Prod.fst heq) hp
        have hold : (m.setNode change.1 n).getNode o.1 = m.getNode o.1 := by
          rw [hget, if_neg hp]
        have := h.dark o hin bank
        rwa [Map.raw, hold]
    · rcases List.mem_append.mp ho with hin | heq
      · obtain ⟨n, hn, hmem⟩ := h.first o hin
        exact ⟨n, hn, List.mem_append_left _ hmem⟩
      · rw [List.mem_singleton] at heq
        subst heq
        dsimp only
        by_cases hbefore : ∃ o' ∈ oldnodes, o'.1 = change.1
        · obtain ⟨o', ho', heq⟩ := hbefore
          obtain ⟨n, hn, hmem⟩ := h.first o' ho'
          rw [heq] at hn hmem
          exact ⟨n, hn, List.mem_append_left _ hmem⟩
        · refine ⟨oldnode, ?_, by simp⟩
          rw [← h.same change.1 fun o ho heq => hbefore ⟨o, ho, heq⟩, hn]

theorem replaced_replaceNodes (m : Map) (changes : List (V3 × MapNode)) :
    Replaced m (replaceNodes m changes).1 (replaceNodes m changes).2 := by
  have hfold : ∀ (changes : List (V3 × MapNode)) (st : Map × OldNodes), Replaced m st.1 st.2 →
      Replaced m (changes.foldl replaceNode st).1 (changes.foldl replaceNode st).2 := by
    intro changes
    induction changes with
    | nil => exact fun _ h => h
    | cons change changes ih => exact fun st h => ih _ (h.step change)
  exact hfold changes (m, []) (replaced_refl m)

theorem Replaced.adjacent (h : Replaced m₀ m oldnodes) : m.Adjacent = m₀.Adjacent := by
  funext p q
  rw [Map.Adjacent, Map.Adjacent, h.loaded, h.loaded]

theorem Replaced.isSome (h : Replaced m₀ m oldnodes) {o : V3 × MapNode} (ho : o ∈ oldnodes) :
    (m.getNode o.1).isSome = true := by
  obtain ⟨n, hn, -⟩ := h.first o ho
  rw [h.loaded, hn]
  rfl

theorem Replaced.raw_eq (h : Replaced m₀ m oldnodes) (hp : ∀ o ∈ oldnodes, o.1 ≠ p) :
    m.raw .night p = m₀.raw .night p := by
  rw [Map.raw, Map.raw, h.same p hp]
  simp only [Map.getLightingFlags, h.ndef]

theorem Replaced.source_eq (h : Replaced m₀ m oldnodes) (hp : ∀ o ∈ oldnodes, o.1 ≠ p) :
    m.source p = m₀.source p := by
  rw [Map.source, Map.source, h.same p hp]
  simp only [Map.getLightingFlags, h.ndef]

theorem Replaced.glow_eq (h : Replaced m₀ m oldnodes) (hp : ∀ o ∈ oldnodes, o.1 ≠ p) :
    nightGlow m p = nightGlow m₀ p := by
  rw [nightGlow, nightGlow, glow, glow, h.source_eq hp, h.raw_eq hp]

theorem Replaced.propagates_iff (h : Replaced m₀ m oldnodes) (hp : ∀ o ∈ oldnodes, o.1 ≠ p) :
    m.Propagates p ↔ m₀.Propagates p := by
  rw [Map.Propagates, Map.Propagates, h.same p hp]
  simp only [Map.getLightingFlags, h.ndef]

/-- The first node that was replaced had the light of its position. -/
theorem Replaced.oldLight_eq (h : Replaced m₀ m oldnodes) (hn : m₀.getNode p = some n) :
    oldNightLight m (p, n) = nightGlow m₀ p := by
  rw [nightGlow, Map.glow_of_getNode hn, oldNightLight]
  simp only [Map.getLightingFlags, h.ndef]

end Replaced

/-- All that can be seen of a correct night light is that from scratch. -/
theorem Map.NightCorrect.glow {m : Map} (h : m.NightCorrect) (p : V3) :
    nightGlow m p = m.nightLight p := by
  have hsource := src_le_lightAt m.Adjacent m.Propagates m.source_le p
  by_cases hp : m.Propagates p
  · rw [nightGlow, Lib.glow, h p hp]
    exact Nat.max_eq_right hsource
  · rw [nightGlow, Lib.glow, Map.raw_of_not_propagates hp, Nat.max_zero]
    rcases lightAt_supported m.Adjacent m.Propagates m.source_le p with
      hle | ⟨_, _, hopen, _⟩
    · exact Nat.le_antisymm hsource hle
    · exact absurd hopen hp

/-! ### The first state -/

/-- The light of `u` is left out when the changed node `v` next to it gets its first light. -/
def LeftOut (m : Map) (oldnodes : OldNodes) (u v : V3) : Prop :=
  (∀ o ∈ oldnodes, o.1 ≠ u) ∧ (∃ o ∈ oldnodes, o.1 = v) ∧
    (∀ o ∈ oldnodes, o.1 = v → oldNightLight m o ≤ startLight m oldnodes v) ∧
    nightGlow m u < minSafeLight m .night oldnodes

section First

variable {m₀ m : Map} {oldnodes : OldNodes} {p u v : V3} {o : V3 × MapNode}

/-- A changed node waits with its first light. -/
theorem holds_startLight (ho : o ∈ oldnodes) (hpos : 0 < startLight m oldnodes o.1) :
    Holds (nightFlood m oldnodes).found o.1 (startLight m oldnodes o.1) :=
  ⟨_, ⟨o, ho, hpos, rfl⟩, rfl, Nat.le_refl _⟩

/-- The own light of a changed node is not lost. -/
theorem Replaced.emits (h : Replaced m₀ m oldnodes) (ho : o ∈ oldnodes) :
    m.source o.1 = 0 ∨ Holds (nightFlood m oldnodes).found o.1 (m.source o.1) := by
  have hle := source_le_startLight oldnodes (h.isSome ho)
  rcases Nat.eq_zero_or_pos (m.source o.1) with h0 | hpos
  · exact Or.inl h0
  · exact Or.inr ((holds_startLight ho (hpos.trans_le hle)).of_le hle)

/-- A light of a neighbour that is bright enough is safe. -/
theorem safe_of_minSafe {q : V3} {k : ℕ} (hsafe : minSafeLight m .night oldnodes ≤ nightGlow m q)
    (hk : k ≤ nightGlow m q) : Safe m.source (nightFlood m oldnodes) q k := by
  rcases Nat.le_total (m.raw .night q) (m.source q) with hle | hle
  · rw [nightGlow, glow, Nat.max_eq_left hle] at hk
    exact Or.inl hk
  · rw [nightGlow, glow, Nat.max_eq_right hle] at hk hsafe
    refine Or.inr ⟨hk, ?_⟩
    intro e he
    obtain ⟨o, ho, _, heq⟩ := he
    subst heq
    exact (oldNightLight_le_minSafe ho).trans hsafe

/-- The light that a vertex had comes from a neighbour that still has more, loses more or gets
more. -/
theorem Replaced.supported (h : Replaced m₀ m oldnodes) (hc : m₀.NightCorrect) (v : V3) :
    m.raw .night v ≤ m.source v ∨ ∃ u, m.Adjacent u v ∧
      (m.raw .night v < glow m.source (m.raw .night) u ∨
        Holds (nightFlood m oldnodes).queue u (m.raw .night v + 1) ∨
        Holds (nightFlood m oldnodes).found u (m.raw .night v + 1)) := by
  by_cases hv : ∀ o ∈ oldnodes, o.1 ≠ v
  · rw [h.raw_eq hv, h.source_eq hv, h.adjacent]
    have hle : m₀.raw .night v ≤ m₀.nightLight v := hc.glow v ▸ raw_le_glow _ _ v
    rcases lightAt_supported m₀.Adjacent m₀.Propagates m₀.source_le v with
      hsrc | ⟨u, hadj, -, hlt⟩
    · exact Or.inl (hle.trans hsrc)
    · right
      refine ⟨u, hadj, ?_⟩
      have hlt : m₀.raw .night v < nightGlow m₀ u := hc.glow u ▸ hle.trans_lt hlt
      by_cases hu : ∀ o ∈ oldnodes, o.1 ≠ u
      · left
        rwa [← h.glow_eq hu] at hlt
      · right
        -- the neighbour was replaced: it loses the light that it had, or has as much
        push Not at hu
        obtain ⟨o, ho, rfl⟩ := hu
        obtain ⟨n, hn, hmem⟩ := h.first o ho
        rw [← h.oldLight_eq hn] at hlt
        rcases Nat.lt_or_ge (startLight m oldnodes o.1) (oldNightLight m (o.1, n)) with hlow | hhigh
        · exact Or.inl ⟨_, ⟨(o.1, n), hmem, hlow, rfl⟩, rfl, hlt⟩
        · exact Or.inr ((holds_startLight ho (by omega)).of_le (hlt.trans_le hhigh))
  · push Not at hv
    obtain ⟨o, ho, rfl⟩ := hv
    left
    rw [h.dark o ho]
    exact Nat.zero_le _

/-- Light is missing next to a changed node only, and only that of what is left out. -/
theorem Replaced.closed (h : Replaced m₀ m oldnodes) (hc : m₀.NightCorrect) (hadj : m.Adjacent u v)
    (hp : m.Propagates v) :
    nightGlow m u ≤ nightGlow m v + 1 ∨ (∃ e ∈ (nightFlood m oldnodes).queue, e.node = v) ∨
      (∃ e ∈ (nightFlood m oldnodes).queue, e.node = u ∧ m.Propagates u) ∨
      Holds (nightFlood m oldnodes).found v (nightGlow m u - 1) ∨
      Holds (nightFlood m oldnodes).found u (nightGlow m u) ∨ LeftOut m oldnodes u v := by
  by_cases hu : ∀ o ∈ oldnodes, o.1 ≠ u
  · by_cases hv : ∀ o ∈ oldnodes, o.1 ≠ v
    · left
      rw [h.glow_eq hu, h.glow_eq hv, hc.glow, hc.glow]
      exact lightAt_le_succ m₀.source_le (h.adjacent ▸ hadj) ((h.propagates_iff hv).mp hp)
    · push Not at hv
      obtain ⟨o, ho, rfl⟩ := hv
      by_cases hkeeps : ∀ o' ∈ oldnodes, o'.1 = o.1 → oldNightLight m o' ≤ startLight m oldnodes o.1
      · rcases Nat.lt_or_ge (nightGlow m u) (minSafeLight m .night oldnodes) with hlow | hsafe
        · exact Or.inr (Or.inr (Or.inr (Or.inr (Or.inr ⟨hu, ⟨o, ho, rfl⟩, hkeeps, hlow⟩))))
        · have hstart := glow_le_startLight hp hadj hsafe
          rcases Nat.lt_or_ge 1 (nightGlow m u) with hpos | hone
          · have hholds := holds_startLight (m := m) ho (by omega)
            exact Or.inr (Or.inr (Or.inr (Or.inl (hholds.of_le (by omega)))))
          · left
            omega
      · push Not at hkeeps
        obtain ⟨o', ho', heq, hlow⟩ := hkeeps
        rw [← heq] at hlow
        exact Or.inr (Or.inl ⟨_, ⟨o', ho', hlow, rfl⟩, heq⟩)
  · push Not at hu
    obtain ⟨o, ho, rfl⟩ := hu
    have hglow : nightGlow m o.1 = m.source o.1 := by
      rw [nightGlow, glow, h.dark o ho, Nat.max_zero]
    rw [hglow]
    rcases h.emits ho with h0 | hholds
    · left
      omega
    · exact Or.inr (Or.inr (Or.inr (Or.inr (Or.inl hholds))))

theorem Replaced.dimming_dark (h : Replaced m₀ m oldnodes) :
    ∀ e ∈ (nightFlood m oldnodes).queue, (nightFlood m oldnodes).raw e.node = 0 := by
  intro e he
  obtain ⟨o, ho, _, heq⟩ := he
  subst heq
  exact h.dark o ho .night

theorem Replaced.dimming (h : Replaced m₀ m oldnodes) (hc : m₀.NightCorrect) :
    Dimming m.Adjacent m.Propagates m.source m.source (LeftOut m oldnodes)
      (nightFlood m oldnodes) := by
  refine ⟨fun v hv => Map.raw_of_not_propagates hv, h.dimming_dark, ?_, ?_, ?_, ?_, ?_, ?_,
    h.supported hc, ?_, fun u v hadj hp => h.closed hc hadj hp⟩
  · intro e he _
    obtain ⟨o, ho, _, heq⟩ := he
    subst heq
    exact h.emits ho
  · intro e he z hz
    obtain ⟨o, ho, _, heq⟩ := he
    subst heq
    cases hz
  · intro e he
    obtain ⟨o, ho, _, heq⟩ := he
    subst heq
    exact (h.dark o ho .night).le.trans (Nat.zero_le _)
  · intro e he hshut
    obtain ⟨o, ho, _, heq⟩ := he
    subst heq
    rcases startLight_supported oldnodes (h.isSome ho) with hle | ⟨hp, -⟩
    · exact hle
    · exact absurd hp hshut
  · intro e he
    obtain ⟨o, ho, _, heq⟩ := he
    subst heq
    rcases startLight_supported oldnodes (h.isSome ho) with
      hle | ⟨-, q, hadj, hsafe, hlight⟩
    · exact Or.inl hle
    · exact Or.inr ⟨q, hadj, safe_of_minSafe hsafe hlight⟩
  · intro e he z hz
    obtain ⟨o, ho, _, heq⟩ := he
    subst heq
    cases hz
  · intro v hp
    by_cases hv : ∀ o ∈ oldnodes, o.1 ≠ v
    · left
      have hsource := src_le_lightAt m₀.Adjacent m₀.Propagates m₀.source_le v
      rw [h.source_eq hv]
      change m₀.source v ≤ m.raw .night v
      rw [h.raw_eq hv, hc v ((h.propagates_iff hv).mp hp)]
      exact hsource
    · push Not at hv
      obtain ⟨o, ho, rfl⟩ := hv
      rcases h.emits ho with h0 | hholds
      · exact Or.inl (h0 ▸ Nat.zero_le _)
      · exact Or.inr (Or.inr hholds)

end First

/-! ### The run -/

/-- What the light has come to: `st` is left by the unlighting and `raw₁` is stored before light
spreads. -/
structure Relit (m : Map) (oldnodes : OldNodes) (st : Flood V3) (raw₁ : V3 → ℕ) (m' : Map) :
    Prop where
  content : Map.SameContent m m'
  queue : st.queue = ∅
  dimming : Dimming m.Adjacent m.Propagates m.source m.source (LeftOut m oldnodes) st
  losing : Losing m.Adjacent m.Propagates (nightFlood m oldnodes) st
  safe : ∀ v k, Safe m.source (nightFlood m oldnodes) v k → Safe m.source st v k
  kindles : Kindles m.Propagates st raw₁
  spreading : Spreading m.Adjacent m.Propagates m.source m.source (LeftOut m oldnodes) st raw₁
    (m'.raw .night) ∅

section Run

variable {m₀ m m₁ m' : Map} {oldnodes : OldNodes} {st : Flood V3} {raw₁ : V3 → ℕ} {p : V3}

theorem SameNight.nightFlood (h : SameNight m m') (oldnodes : OldNodes) :
    nightFlood m' oldnodes = nightFlood m oldnodes := by
  have hraw : m'.raw .night = m.raw .night := funext h.raw
  unfold Voxel.nightFlood
  simp only [hraw, h.startLight, h.oldNightLight]

theorem SameNight.trans {m₂ : Map} (h : SameNight m m') (h₂ : SameNight m' m₂) :
    SameNight m m₂ :=
  ⟨h.content.trans h₂.content, fun p => (h₂.raw p).trans (h.raw p)⟩

/-- The night light is brought up to date, on a map that has the same of it. -/
theorem Replaced.relit (h : Replaced m₀ m oldnodes) (hc : m₀.NightCorrect) (hm : SameNight m m₁) :
    ∃ st raw₁, Relit m oldnodes st raw₁ (updateBank .night oldnodes m₁) := by
  have hdark : ∀ o ∈ oldnodes, m₁.raw .night o.1 = 0 := fun o ho =>
    (hm.raw o.1).trans (h.dark o ho .night)
  have hload : ∀ o ∈ oldnodes, (m₁.getNode o.1).isSome = true := fun o ho =>
    (hm.content.isSome o.1).trans (h.isSome ho)
  obtain ⟨hsame, hqueue, hfound⟩ := initNodes_night hdark hload
  have hstart := started_initNodes .night oldnodes m₁
  unfold updateBank
  dsimp only
  generalize initNodes .night oldnodes m₁ = st₀ at hsame hqueue hfound hstart
  have hall := hm.trans hsame
  -- what the queues hold is the first state
  have hflood : flood .night st₀.map st₀.disappearingLights st₀.lightSources =
      nightFlood m oldnodes := by
    rw [← hm.nightFlood, flood, hqueue, hfound, funext hsame.raw]
    rfl
  have hunlit := unspreadLight_spec .night (P := fun st =>
      Dimming m.Adjacent m.Propagates m.source m.source (LeftOut m oldnodes) st ∧
      Losing m.Adjacent m.Propagates (nightFlood m oldnodes) st ∧
      ∀ v k, Safe m.source (nightFlood m oldnodes) v k → Safe m.source st v k)
    (fun e st st' hP hstep => by
      rw [hall.content.adjacent, hall.content.propagates, hall.content.source] at hstep
      obtain ⟨hd, hl, hs⟩ := hP
      exact ⟨hd.step (fun _ => Nat.le_refl _) m.adjacent_symm hstep, hl.step hstep,
        fun v k hsafe => hstep.safe (hs v k hsafe)⟩)
    ⟨hstart.losers.ok, fun e he => (hsame.content.isSome e.node).trans (hstart.losers.loaded e he)⟩
    (hstart.sources.of_sameContent hsame.content) (by
      rw [hflood]
      have hd := h.dimming hc
      exact ⟨hd, losing_refl hd.dark fun e he z hz => (hd.came e he z hz).1,
        fun _ _ hsafe => hsafe⟩)
  generalize unspreadLight .night st₀.map st₀.disappearingLights st₀.lightSources = unlit at hunlit
  obtain ⟨hd, hl, hs⟩ := hunlit.holds
  have hcontent := hall.content.trans hunlit.content
  have hk := kindles_initLights .night hunlit.sources.ok unlit.1 ∅
  have hinit := initBelow_initLights .night hunlit.sources.ok (Nat.le_refl LIGHT_SUN)
    unlit.1
  rw [hcontent.propagates] at hk
  have hcontent' := hcontent.trans hinit.content
  have hspread := spreadLight_spec .night (P := fun raw queue =>
      Spreading m.Adjacent m.Propagates m.source m.source (LeftOut m oldnodes)
        ⟨unlit.1.raw .night, ∅, unlit.2.entries⟩
        ((initLights .night LIGHT_SUN unlit.1 unlit.2).raw .night) raw queue)
    (fun e raw raw' q q' hP hstep => by
      rw [hcontent'.adjacent, hcontent'.propagates] at hstep
      exact hP.step hstep)
    (hunlit.sources.of_sameContent (hunlit.content.trans hinit.content)) (hd.spreading rfl hk)
  exact ⟨_, _, hcontent'.trans hspread.content, rfl, hd, hl, hs, hk, hspread.holds⟩

theorem Relit.glow_le_or_loses (h : Relit m oldnodes st raw₁ m') (p : V3) :
    nightGlow m p ≤ glow m.source raw₁ p ∨ ∃ k, LosesLight m oldnodes p k := by
  rcases h.losing.raw p with hsame | ⟨-, hlost, -⟩
  · left
    apply glow_mono
    exact (show m.raw .night p = st.raw p from hsame.symm) ▸ h.kindles.le h.dimming p
  · exact Or.inr ⟨_, lost_iff.mp hlost⟩

/-- A node that is not to be lit again has not become brighter by that. -/
theorem Relit.glow_le_of_not_found (h : Relit m oldnodes st raw₁ m')
    (hnot : ∀ e ∈ st.found, m.Propagates p → e.node ≠ p) :
    glow m.source raw₁ p = glow m.source st.raw p ∧ glow m.source st.raw p ≤ nightGlow m p := by
  have hsame : raw₁ p = st.raw p := by
    by_cases hp : m.Propagates p
    · exact h.kindles.same p fun e he => hnot e he hp
    · exact h.kindles.shut p hp
  refine ⟨by rw [glow, glow, hsame], glow_mono ?_⟩
  rcases h.losing.raw p with heq | ⟨h0, -⟩
  · exact heq.le
  · exact h0.le.trans (Nat.zero_le _)

theorem Relit.raw_eq_glow (h : Relit m oldnodes st raw₁ m') (hp : m.Propagates p) :
    glow m.source (m'.raw .night) p = m'.raw .night p :=
  Nat.max_eq_right ((h.spreading.lights p hp).trans (h.spreading.grown p))

/-- The night light is right when no node is darker than it is from scratch. -/
theorem Relit.nightCorrect_iff (h : Relit m oldnodes st raw₁ m') :
    m'.NightCorrect ↔ ∀ p, glow m.source (m'.raw .night) p = m.nightLight p := by
  constructor
  · intro hc p
    rw [← h.content.source, ← h.content.nightLight]
    exact hc.glow p
  · intro hall p hp
    rw [h.content.propagates] at hp
    rw [h.content.nightLight, ← hall p, h.raw_eq_glow hp]

theorem source_le_sun (m : Map) (p : V3) : m.source p ≤ LIGHT_SUN :=
  (m.source_le p).trans (by decide)

/-- When each neighbour that matters has been noticed, no light is missing. -/
theorem Relit.nightCorrect (h : Relit m oldnodes st raw₁ m') (hr : Replaced m₀ m oldnodes)
    (hnoticed : Noticed m oldnodes) : m'.NightCorrect := by
  apply h.nightCorrect_iff.mpr
  intro p
  apply Nat.le_antisymm
  · exact h.spreading.glow_le (fun _ => Nat.le_refl _) (source_le_sun m) (Map.raw_le m' .night) p
  by_contra hlt
  obtain ⟨v, hp, hhigh, ⟨u, hadj, hu⟩, hblind⟩ := h.spreading.exists_blind
    (fun _ => Nat.le_refl _) (source_le_sun m) (Map.raw_le m' .night) (src_le_glow _ _)
    (Nat.lt_of_not_le hlt)
  obtain ⟨⟨-, ⟨o, ho, hv⟩, hkeeps, -⟩, -⟩ := hblind u hadj hu
  subst hv
  rcases hnoticed o ho hp hkeeps with hsource | ⟨q, hadj, hq, hwhy⟩
  · exact absurd hhigh hsource.not_gt
  · obtain ⟨⟨hunchanged, -, -, hlow⟩, hglow, hnot⟩ := hblind q hadj hq
    change glow m.source raw₁ q = m.nightLight q at hglow
    obtain ⟨heq, hle⟩ := h.glow_le_of_not_found hnot
    rcases hwhy with ⟨o', ho', hq'⟩ | ⟨k, hlost⟩ | hbrighter | hsafe
    · exact hunchanged o' ho' hq'
    · -- it lost its light and got none again
      have h0 := h.losing.raw_eq_zero h.queue hr.dimming_dark (lost_iff.mpr hlost)
      cases hlost with
      | changed ho' => exact hunchanged _ ho' rfl
      | next _ _ hpq _ _ =>
        have hraw : raw₁ q = st.raw q := h.kindles.same q fun e he => hnot e he hpq
        have hlight := h.spreading.lights q hpq
        rw [glow, hraw, h0] at hglow
        omega
    · omega
    · omega

/-- When the light is right, each neighbour that matters has been noticed. -/
theorem Relit.noticed (h : Relit m oldnodes st raw₁ m') (hr : Replaced m₀ m oldnodes)
    (hcorrect : m'.NightCorrect) : Noticed m oldnodes := by
  have hglow := h.nightCorrect_iff.mp hcorrect
  intro o ho hp hkeeps
  by_cases hsource : m.nightLight o.1 ≤ m.source o.1
  · exact Or.inl hsource
  right
  have hraw : m'.raw .night o.1 = m.nightLight o.1 := by rw [← h.raw_eq_glow hp, hglow]
  have hnotLost : ∀ k, ¬ LosesLight m oldnodes o.1 k := by
    intro k hlost
    generalize ho' : o.1 = p at hlost
    cases hlost with
    | @changed o' hin hlt => exact absurd (hkeeps o' hin ho'.symm) (ho' ▸ hlt.not_ge)
    | next _ _ _ hpos _ => exact absurd (ho' ▸ hr.dark o ho .night) hpos.ne'
  have hstarted : ∀ e ∈ st.found, e ∈ (nightFlood m oldnodes).found ∨
      ∃ k, LosesLight m oldnodes e.node k := fun e he =>
    (h.losing.found e he).imp_right fun ⟨k, hk⟩ => ⟨k, lost_iff.mp hk⟩
  rcases h.spreading.lit o.1 with hstored | ⟨q, hadj, hlt, hwhy⟩
  · -- the light is the one that the node started with
    by_cases hin : ∃ e ∈ st.found, e.node = o.1
    · obtain ⟨e, he, hnode, hlevel⟩ := (h.kindles.lit o.1 hp hin).1
      rcases hstarted e he with ⟨o', ho', -, heq⟩ | ⟨k, hlost⟩
      · subst heq
        have hnode : o'.1 = o.1 := hnode
        rw [hnode] at hlevel
        change raw₁ o.1 ≤ startLight m oldnodes o.1 at hlevel
        rcases startLight_supported oldnodes (hr.isSome ho) with
          hle | ⟨-, q, hadj, hsafe, hlight⟩
        · omega
        · have hq := h.kindles.safe h.dimming (h.safe q _ (safe_of_minSafe hsafe hlight))
          have hgrown : glow m.source raw₁ q ≤ glow m.source (m'.raw .night) q :=
            glow_mono (h.spreading.grown q)
          rw [hglow q] at hgrown
          exact ⟨q, hadj, by omega, Or.inr (Or.inr (Or.inr hsafe))⟩
      · exact absurd (hnode ▸ hlost) (hnotLost k)
    · have h0 : raw₁ o.1 = st.raw o.1 := h.kindles.same o.1 fun e he heq => hin ⟨e, he, heq⟩
      have hdark : st.raw o.1 = 0 := by
        rcases h.losing.raw o.1 with hsame | ⟨h0, -⟩
        · exact hsame.trans (hr.dark o ho .night)
        · exact h0
      omega
  · rw [hglow q, hraw] at hlt
    refine ⟨q, hadj, hlt, ?_⟩
    rcases hwhy with ⟨e, he, hnode⟩ | hrisen
    · rcases hstarted e he with ⟨o', ho', -, heq⟩ | hlost
      · exact Or.inl ⟨o', ho', by rw [← hnode, heq]⟩
      · exact Or.inr (Or.inl (hnode ▸ hlost))
    · rw [hglow q] at hrisen
      rcases h.glow_le_or_loses q with hle | hlost
      · exact Or.inr (Or.inr (Or.inl (hle.trans_lt hrisen)))
      · exact Or.inr (Or.inl hlost)

/-- Updating the night light after nodes have been replaced gives what computing it from scratch
does just when each neighbour that matters is noticed. -/
theorem nightCorrect_updateLightingNodes_iff (m₀ : Map) (hc : m₀.NightCorrect)
    (changes : List (V3 × MapNode)) :
    (updateLightingNodes (replaceNodes m₀ changes).1 (replaceNodes m₀ changes).2).NightCorrect ↔
      Noticed (replaceNodes m₀ changes).1 (replaceNodes m₀ changes).2 := by
  have hr := replaced_replaceNodes m₀ changes
  generalize replaceNodes m₀ changes = r at hr
  obtain ⟨hcontent, hother⟩ := updateBank_other .day r.2 r.1
  obtain ⟨st, raw₁, h⟩ := hr.relit hc
    ⟨hcontent, fun p => hother .night (by decide) p⟩
  exact ⟨h.noticed hr, h.nightCorrect hr⟩

end Run

/-! ### A lamp that is left out -/

def lampFlags (c : Block.Content) : ContentLightingFlags where
  lightSource := if c = 3 then 3 else if c = 4 then 14 else 0
  hasLight := decide (2 ≤ c)
  lightPropagates := decide (2 ≤ c)
  sunlightPropagates := decide (c = 2)
  hasLight_eq := rfl
  lightSource_le := by split_ifs <;> decide

/-- In a block of stone, a lamp and a torch, both with their light. -/
def lampMap : Map where
  ndef := lampFlags
  block := Function.update (fun _ => none) ⟨0, 0, 0⟩ (some {
    data := Function.update (Function.update (fun _ => ⟨1, 0, 0⟩) ⟨0, 0, 0⟩ ⟨3, 0x30, 0⟩) ⟨5, 0, 0⟩
      ⟨4, 0xE0, 0⟩
    isUnderground := true })
  bottom := 0
  bottom_le := by
    intro b hb
    by_cases h : b = ⟨0, 0, 0⟩
    · rw [h]
    · rw [Function.update_of_ne h] at hb
      cases hb

def lampChanges : List (V3 × MapNode) := [(⟨1, 0, 0⟩, ⟨2, 0, 0⟩), (⟨5, 0, 0⟩, ⟨1, 0, 0⟩)]

theorem lampMap_getNode (p : V3) : lampMap.getNode p =
    if getNodeBlockPos p = ⟨0, 0, 0⟩ then
      some (if p = ⟨5, 0, 0⟩ then ⟨4, 0xE0, 0⟩ else if p = ⟨0, 0, 0⟩ then ⟨3, 0x30, 0⟩ else ⟨1, 0, 0⟩)
    else none := by
  unfold Map.getNode Map.getBlockNode lampMap
  dsimp only
  by_cases h : getNodeBlockPos p = ⟨0, 0, 0⟩
  · have hp : relPos p = p := by
      have := nodePos_relPos p
      rw [h] at this
      simpa [nodePos] using this
    rw [h, Function.update_self, if_pos rfl, hp]
    simp [Function.update_apply]
  · rw [Function.update_of_ne h, if_neg h]
    rfl

def lampLight (p : V3) : ℕ := if p = ⟨5, 0, 0⟩ then 14 else if p = ⟨0, 0, 0⟩ then 3 else 0

theorem lampMap_source (p : V3) : lampMap.source p = lampLight p := by
  by_cases hq : p = ⟨5, 0, 0⟩
  · subst hq
    decide +kernel
  by_cases hl : p = ⟨0, 0, 0⟩
  · subst hl
    decide +kernel
  rw [Map.source, lampMap_getNode, lampLight, if_neg hq, if_neg hl, if_neg hq, if_neg hl]
  split_ifs <;> rfl

theorem lampMap_propagates {p : V3} (h : lampMap.Propagates p) :
    p = ⟨5, 0, 0⟩ ∨ p = ⟨0, 0, 0⟩ := by
  obtain ⟨n, hn, hf⟩ := h
  rw [lampMap_getNode] at hn
  split_ifs at hn with h1 h2 h3
  · exact Or.inl h2
  · exact Or.inr h3
  · obtain rfl := Option.some.inj hn
    exact absurd hf (by decide)

theorem nightCorrect_lampMap : lampMap.NightCorrect := by
  have hbound : ∀ p, lampMap.source p ≤ LIGHT_SUN := source_le_sun lampMap
  have hlight : ∀ p, lampMap.source p = lampMap.nightLight p := by
    intro p
    apply eq_lightAt hbound hbound (fun _ => Nat.le_refl _)
    · intro u v hadj hopen
      rw [lampMap_source, lampMap_source]
      cases lampMap_propagates hopen with
      | inl h =>
        subst h
        exact (lampMap_source u ▸ hbound u)
      | inr h =>
        subst h
        obtain ⟨-, -, dir, hdir, hu⟩ := lampMap.adjacent_symm _ _ hadj
        subst hu
        interval_cases dir <;> decide
    · exact fun _ => Or.inl (Nat.le_refl _)
  intro p hp
  rw [← hlight]
  cases lampMap_propagates hp with
  | inl h =>
    subst h
    decide +kernel
  | inr h =>
    subst h
    decide +kernel

/-- The lamp is too dim to be safe and loses nothing, so the air next to it stays dark. -/
theorem not_nightCorrect_updateLightingNodes : lampMap.NightCorrect ∧
    ¬ (updateLightingNodes (replaceNodes lampMap lampChanges).1
      (replaceNodes lampMap lampChanges).2).NightCorrect := by
  refine ⟨nightCorrect_lampMap, fun hc => ?_⟩
  have hcontent : Map.SameContent (replaceNodes lampMap lampChanges).1
      (updateLightingNodes (replaceNodes lampMap lampChanges).1
        (replaceNodes lampMap lampChanges).2) :=
    (updateBank_other _ _ _).1.trans (updateBank_other _ _ _).1
  have hair : (replaceNodes lampMap lampChanges).1.Propagates ⟨1, 0, 0⟩ :=
    ⟨⟨2, 0, 0⟩, by decide +kernel, by decide +kernel⟩
  have hdark : (updateLightingNodes (replaceNodes lampMap lampChanges).1
      (replaceNodes lampMap lampChanges).2).raw .night ⟨1, 0, 0⟩ = 0 := by decide +kernel
  have hlamp : (replaceNodes lampMap lampChanges).1.source ⟨0, 0, 0⟩ = 3 := by decide +kernel
  have hadj : (replaceNodes lampMap lampChanges).1.Adjacent ⟨0, 0, 0⟩ ⟨1, 0, 0⟩ :=
    ⟨by decide +kernel, by decide +kernel, 0, by decide, by decide⟩
  have hlight := le_lightAt (source_le_sun (replaceNodes lampMap lampChanges).1)
    (.snoc (.nil (s := ⟨0, 0, 0⟩)) hadj hair)
  rw [← hcontent.propagates] at hair
  have := hc _ hair
  rw [hdark, hcontent.nightLight, Map.nightLight] at this
  omega

theorem nightCorrect_updateLightingNodes_iff_lampMap :
    (updateLightingNodes (replaceNodes lampMap lampChanges).1
      (replaceNodes lampMap lampChanges).2).NightCorrect ↔
      Noticed (replaceNodes lampMap lampChanges).1 (replaceNodes lampMap lampChanges).2 :=
  nightCorrect_updateLightingNodes_iff lampMap nightCorrect_lampMap lampChanges

end Freeminer.Voxel
