import Freeminer.Voxel.Update

/-! Night light after some nodes have been replaced: when updating it gives what computing it from
scratch does. -/

namespace Freeminer.Voxel

open Lib
open Block (MapNode)

/-! ### What is replaced -/

def oldNightLight (m : Map) (o : V3 × MapNode) : ℕ := getLight o.2 .night (m.getLightingFlags o.2)

/-- The night light that a changed node has from itself and from what stays bright around it. -/
def startLight (m : Map) (oldnodes : OldNodes) (p : V3) : ℕ :=
  match m.getNode p with
  | some n => getNewLight m .night (minSafeLight m .night oldnodes) p n
  | none => 0

def nightGlow (m : Map) : V3 → ℕ := glow m.source (m.raw .night)

/-- A node loses a light: it was replaced and starts with less, or a neighbour loses more than it
has. -/
inductive LosesLight (m : Map) (oldnodes : OldNodes) : V3 → ℕ → Prop
  | changed {o : V3 × MapNode} (ho : o ∈ oldnodes)
    (hlt : startLight m oldnodes o.1 < oldNightLight m o) :
    LosesLight m oldnodes o.1 (oldNightLight m o)
  | next {u v : V3} {k : ℕ} (h : LosesLight m oldnodes u k) (hadj : m.Adjacent u v)
    (hp : m.Propagates v) (hpos : 0 < m.raw .night v) (hlt : m.raw .night v < k) :
    LosesLight m oldnodes v (m.raw .night v)

/-- Each changed node that does not start with less than it had is as bright as it emits itself, or
a brighter neighbour is noticed: it is changed too, loses its light, becomes brighter than it was,
or has been too bright to lose light. -/
def Noticed (m : Map) (oldnodes : OldNodes) : Prop :=
  ∀ o ∈ oldnodes, m.Propagates o.1 →
    (∀ o' ∈ oldnodes, o'.1 = o.1 → oldNightLight m o' ≤ startLight m oldnodes o.1) →
    m.nightLight o.1 ≤ m.source o.1 ∨ ∃ q, m.Adjacent q o.1 ∧ m.nightLight o.1 < m.nightLight q ∧
      ((∃ o' ∈ oldnodes, o'.1 = q) ∨ (∃ k, LosesLight m oldnodes q k) ∨
        nightGlow m q < m.nightLight q ∨ minSafeLight m .night oldnodes ≤ nightGlow m q)

section Start

variable {m m' : Map} {oldnodes : OldNodes} {p q : V3} {n n' : MapNode} {minSafe light i : ℕ}

/-- Two maps of the same content with the same night light. -/
structure SameNight (m m' : Map) : Prop where
  content : Map.SameContent m m'
  raw : ∀ p, m'.raw .night p = m.raw .night p

theorem SameNight.glow (h : SameNight m m') : nightGlow m' = nightGlow m := by
  funext p
  rw [nightGlow, nightGlow, h.content.source, Lib.glow, Lib.glow, h.raw]

theorem safeSpread_eq (m : Map) (minSafe : ℕ) (p : V3) (light i : ℕ) :
    safeSpread m .night minSafe p light i =
      if nightGlow m (p + neighborDirs i) > light ∧ nightGlow m (p + neighborDirs i) ≥ minSafe then
        nightGlow m (p + neighborDirs i) - 1
      else light := by
  unfold safeSpread
  cases hn : m.getNode (p + neighborDirs i) with
  | none =>
    have hzero : nightGlow m (p + neighborDirs i) = 0 := by
      rw [nightGlow, glow, Map.source, Map.raw, hn]
      rfl
    rw [hzero, if_neg fun h => absurd h.1 (Nat.not_lt_zero _)]
  | some n =>
    rw [nightGlow, Map.glow_of_getNode hn]

theorem SameNight.safeSpread (h : SameNight m m') (minSafe : ℕ) (p : V3) :
    safeSpread m' .night minSafe p = safeSpread m .night minSafe p := by
  funext light i
  rw [safeSpread_eq, safeSpread_eq, h.glow]

theorem SameNight.getNewLight (h : SameNight m m') (hn : n'.param0 = n.param0) (minSafe : ℕ)
    (p : V3) : getNewLight m' .night minSafe p n' = getNewLight m .night minSafe p n := by
  unfold Voxel.getNewLight
  rw [h.content.flags hn, h.safeSpread]
  simp

theorem SameNight.minSafeLight (h : SameNight m m') (oldnodes : OldNodes) :
    minSafeLight m' .night oldnodes = minSafeLight m .night oldnodes := by
  have hflags : ∀ n, m'.getLightingFlags n = m.getLightingFlags n := fun n => h.content.flags rfl
  unfold Voxel.minSafeLight
  simp only [hflags]

theorem SameNight.startLight (h : SameNight m m') (oldnodes : OldNodes) (p : V3) :
    startLight m' oldnodes p = startLight m oldnodes p := by
  unfold Voxel.startLight
  rw [h.minSafeLight]
  cases hn : m.getNode p with
  | none =>
    have : m'.getNode p = none := by
      have := h.content.content p
      rwa [hn, Option.map_none, Option.map_eq_none_iff] at this
    rw [this]
  | some n =>
    obtain ⟨n', hn', hc⟩ := h.content.getNode hn
    rw [hn']
    exact h.getNewLight hc _ p

theorem SameNight.oldNightLight (h : SameNight m m') (o : V3 × MapNode) :
    oldNightLight m' o = oldNightLight m o := by
  rw [Voxel.oldNightLight, Voxel.oldNightLight, h.content.flags rfl]

/-- The loop over the neighbours: the light does not fall, each safe neighbour counts, and it comes
from somewhere. -/
theorem safeSpread_foldl (dirs : List ℕ) : ∀ light,
    light ≤ dirs.foldl (safeSpread m .night minSafe p) light ∧
      (∀ i ∈ dirs, minSafe ≤ nightGlow m (p + neighborDirs i) →
        nightGlow m (p + neighborDirs i) ≤ dirs.foldl (safeSpread m .night minSafe p) light + 1) ∧
      (dirs.foldl (safeSpread m .night minSafe p) light = light ∨ ∃ i ∈ dirs,
        minSafe ≤ nightGlow m (p + neighborDirs i) ∧
        dirs.foldl (safeSpread m .night minSafe p) light + 1 =
          nightGlow m (p + neighborDirs i)) := by
  induction dirs with
  | nil => exact fun light => ⟨Nat.le_refl _, by simp, Or.inl rfl⟩
  | cons i dirs ih =>
    intro light
    rw [List.foldl_cons]
    obtain ⟨hle, hall, hfrom⟩ := ih (safeSpread m .night minSafe p light i)
    rw [safeSpread_eq] at hle hall hfrom ⊢
    split_ifs at hle hall hfrom ⊢ with hsafe
    · refine ⟨by omega, fun j hj hs => ?_, ?_⟩
      · cases List.mem_cons.mp hj with
        | inl heq =>
          subst heq
          omega
        | inr hin => exact hall j hin hs
      · rcases hfrom with heq | ⟨j, hj, hs, heq⟩
        · exact Or.inr ⟨i, List.mem_cons_self, hsafe.2, by omega⟩
        · exact Or.inr ⟨j, List.mem_cons_of_mem _ hj, hs, heq⟩
    · refine ⟨hle, fun j hj hs => ?_, hfrom.imp_right fun ⟨j, hj, h⟩ =>
        ⟨j, List.mem_cons_of_mem _ hj, h⟩⟩
      cases List.mem_cons.mp hj with
      | inl heq =>
        subst heq
        have := Nat.not_lt.mp fun hlt => hsafe ⟨hlt, hs⟩
        omega
      | inr hin => exact hall j hin hs

theorem mem_directions {dir : ℕ} (h : dir < 6) : dir ∈ directions := by
  interval_cases dir <;> simp [directions]

variable (oldnodes) in
theorem startLight_eq (h : (m.getNode p).isSome = true) :
    (m.Propagates p ∧ startLight m oldnodes p = directions.foldl
        (safeSpread m .night (minSafeLight m .night oldnodes) p) (m.source p)) ∨
      (¬ m.Propagates p ∧ startLight m oldnodes p = m.source p) := by
  obtain ⟨n, hn⟩ := Option.isSome_iff_exists.mp h
  unfold startLight
  rw [hn]
  dsimp only
  unfold getNewLight
  rw [Map.propagates_iff hn, Map.source_of_getNode hn]
  by_cases hf : (m.getLightingFlags n).lightPropagates = true
  · left
    refine ⟨hf, ?_⟩
    simp [hf]
  · right
    refine ⟨hf, ?_⟩
    simp [hf]

variable (oldnodes) in
theorem source_le_startLight (h : (m.getNode p).isSome = true) :
    m.source p ≤ startLight m oldnodes p := by
  rcases startLight_eq oldnodes h with ⟨-, heq⟩ | ⟨-, heq⟩
  · rw [heq]
    exact (safeSpread_foldl directions _).1
  · exact heq.ge

/-- A neighbour that is bright enough counts. -/
theorem glow_le_startLight (hp : m.Propagates p) (hadj : m.Adjacent q p)
    (hsafe : minSafeLight m .night oldnodes ≤ nightGlow m q) :
    nightGlow m q ≤ startLight m oldnodes p + 1 := by
  obtain ⟨hpl, hql, dir, hdir, rfl⟩ := m.adjacent_symm _ _ hadj
  rcases startLight_eq oldnodes hpl with ⟨-, heq⟩ | ⟨hno, -⟩
  · rw [heq]
    exact (safeSpread_foldl directions _).2.1 dir (mem_directions hdir) hsafe
  · exact absurd hp hno

variable (oldnodes) in
theorem startLight_supported (h : (m.getNode p).isSome = true) :
    startLight m oldnodes p ≤ m.source p ∨ m.Propagates p ∧ ∃ q, m.Adjacent q p ∧
      minSafeLight m .night oldnodes ≤ nightGlow m q ∧
      startLight m oldnodes p + 1 ≤ nightGlow m q := by
  rcases startLight_eq oldnodes h with ⟨hp, heq⟩ | ⟨-, heq⟩
  · rcases (safeSpread_foldl directions (m.source p)).2.2 with hsame | ⟨i, hi, hsafe, hlight⟩
    · exact Or.inl (heq.trans hsame).le
    · right
      rw [heq]
      have hglow : 0 < nightGlow m (p + neighborDirs i) := by omega
      have hload : (m.getNode (p + neighborDirs i)).isSome = true := by
        by_contra hnone
        have hnone := Option.not_isSome_iff_eq_none.mp hnone
        simp [nightGlow, glow, Map.source, Map.raw, hnone] at hglow
      have hdir : i < 6 := by
        simp only [directions, List.mem_cons, List.not_mem_nil, or_false] at hi
        omega
      exact ⟨hp, _, m.adjacent_symm _ _ ⟨h, hload, i, hdir, rfl⟩, hsafe, hlight.le⟩
  · exact Or.inl heq.le

/-- The limit is not below the light of a node that was replaced. -/
theorem oldNightLight_le_minSafe {o : V3 × MapNode} (ho : o ∈ oldnodes) :
    oldNightLight m o ≤ minSafeLight m .night oldnodes := by
  have hfold : ∀ (os : OldNodes) (k : ℕ),
      k ≤ os.foldl (fun s o => if getLight o.2 .night (m.getLightingFlags o.2) > s then
        getLight o.2 .night (m.getLightingFlags o.2) else s) k ∧
      ∀ o ∈ os, oldNightLight m o ≤ os.foldl (fun s o =>
        if getLight o.2 .night (m.getLightingFlags o.2) > s then
          getLight o.2 .night (m.getLightingFlags o.2) else s) k := by
    intro os
    induction os with
    | nil => exact fun k => ⟨Nat.le_refl k, by simp⟩
    | cons o os ih =>
      intro k
      rw [List.foldl_cons]
      obtain ⟨hle, hall⟩ := ih (if getLight o.2 .night (m.getLightingFlags o.2) > k then
        getLight o.2 .night (m.getLightingFlags o.2) else k)
      have hstep : k ≤ (if getLight o.2 .night (m.getLightingFlags o.2) > k then
          getLight o.2 .night (m.getLightingFlags o.2) else k) ∧
          oldNightLight m o ≤ (if getLight o.2 .night (m.getLightingFlags o.2) > k then
          getLight o.2 .night (m.getLightingFlags o.2) else k) := by
        unfold oldNightLight
        split_ifs <;> omega
      refine ⟨hstep.1.trans hle, fun o' ho' => ?_⟩
      cases List.mem_cons.mp ho' with
      | inl heq => exact heq ▸ hstep.2.trans hle
      | inr hin => exact hall o' hin
  have hle := (hfold oldnodes 0).2 o ho
  unfold minSafeLight
  dsimp only
  split_ifs
  · exact Nat.le_succ_of_le hle
  · exact hle

end Start

section Queues

variable {m : Map} {oldnodes : OldNodes} {st : Lighting} {o : V3 × MapNode}

theorem entry_relPos (light : ℕ) (p : V3) :
    ChangingLight.entry light ⟨relPos p, getNodeBlockPos p, 6⟩ = ⟨light, p, none⟩ := by
  rw [ChangingLight.entry, pos_relPos]
  rfl

variable (oldnodes) in
/-- A changed node that has no night light yet. -/
theorem initNode_night (h : SameNight m st.map) (hdark : m.raw .night o.1 = 0)
    (hload : (m.getNode o.1).isSome = true) :
    SameNight m (initNode .night (minSafeLight m .night oldnodes) st o).map ∧
      (initNode .night (minSafeLight m .night oldnodes) st o).disappearingLights.entries =
        st.disappearingLights.entries ∪ {e | startLight m oldnodes o.1 < oldNightLight m o ∧
          e = ⟨oldNightLight m o, o.1, none⟩} ∧
      (initNode .night (minSafeLight m .night oldnodes) st o).lightSources.entries =
        st.lightSources.entries ∪ {e | 0 < startLight m oldnodes o.1 ∧
          e = ⟨startLight m oldnodes o.1, o.1, none⟩} := by
  obtain ⟨n₀, hn₀⟩ := Option.isSome_iff_exists.mp hload
  obtain ⟨n, hn, hc⟩ := h.content.getNode hn₀
  have hnew : getNewLight st.map .night (minSafeLight m .night oldnodes) o.1 n =
      startLight m oldnodes o.1 := by
    rw [h.getNewLight hc, startLight, hn₀]
  have hold : getLight o.2 .night (st.map.getLightingFlags o.2) = oldNightLight m o := by
    rw [h.content.flags rfl]
    rfl
  have hset : SameNight m
      (st.map.setNode o.1 (setLight n .night 0 (st.map.getLightingFlags n))) := by
    refine ⟨h.content.trans (Map.sameContent_setNode hn .night 0), fun p => ?_⟩
    rw [Map.raw_setLight hn (Nat.zero_le _), ← h.raw]
    split_ifs with hp
    · rw [hp.2.1, h.raw, hdark]
    · rfl
  have hle : startLight m oldnodes o.1 ≤ LIGHT_SUN := hnew ▸ getNewLight_le ..
  have hle' : oldNightLight m o ≤ LIGHT_SUN := getLight_le ..
  -- the sources get the new light, when there is any
  have hsources : (if startLight m oldnodes o.1 > 0 then
      st.lightSources.push (startLight m oldnodes o.1) ⟨relPos o.1, getNodeBlockPos o.1, 6⟩
      else st.lightSources).entries = st.lightSources.entries ∪
        {e | 0 < startLight m oldnodes o.1 ∧ e = ⟨startLight m oldnodes o.1, o.1, none⟩} := by
    split_ifs with hpos
    · rw [LightQueue.entries_push hle, entry_relPos]
      ext e
      simp [hpos]
    · ext e
      simp [hpos]
  unfold initNode
  rw [hn]
  dsimp only
  rw [hnew, hold]
  by_cases hlow : startLight m oldnodes o.1 < oldNightLight m o
  · rw [if_pos hlow, if_neg (by simp)]
    refine ⟨hset, ?_, hsources⟩
    dsimp only
    rw [LightQueue.entries_push hle', entry_relPos]
    ext e
    simp [hlow]
  · rw [if_neg hlow, if_neg (by simp)]
    refine ⟨h, ?_, hsources⟩
    ext e
    simp [hlow]

/-- The queues that the unlighting starts with. -/
theorem initNodes_night (hdark : ∀ o ∈ oldnodes, m.raw .night o.1 = 0)
    (hload : ∀ o ∈ oldnodes, (m.getNode o.1).isSome = true) :
    SameNight m (initNodes .night oldnodes m).map ∧
      (initNodes .night oldnodes m).disappearingLights.entries = {e | ∃ o ∈ oldnodes,
        startLight m oldnodes o.1 < oldNightLight m o ∧ e = ⟨oldNightLight m o, o.1, none⟩} ∧
      (initNodes .night oldnodes m).lightSources.entries = {e | ∃ o ∈ oldnodes,
        0 < startLight m oldnodes o.1 ∧ e = ⟨startLight m oldnodes o.1, o.1, none⟩} := by
  have hfold : ∀ (os : OldNodes) (st : Lighting), (∀ o ∈ os, o ∈ oldnodes) → SameNight m st.map →
      SameNight m (os.foldl (initNode .night (minSafeLight m .night oldnodes)) st).map ∧
      (os.foldl (initNode .night (minSafeLight m .night oldnodes)) st).disappearingLights.entries =
        st.disappearingLights.entries ∪ {e | ∃ o ∈ os,
          startLight m oldnodes o.1 < oldNightLight m o ∧ e = ⟨oldNightLight m o, o.1, none⟩} ∧
      (os.foldl (initNode .night (minSafeLight m .night oldnodes)) st).lightSources.entries =
        st.lightSources.entries ∪ {e | ∃ o ∈ os,
          0 < startLight m oldnodes o.1 ∧ e = ⟨startLight m oldnodes o.1, o.1, none⟩} := by
    intro os
    induction os with
    | nil => exact fun st _ h => ⟨h, by simp, by simp⟩
    | cons o os ih =>
      intro st hos h
      have ho := hos o List.mem_cons_self
      obtain ⟨h1, h2, h3⟩ := initNode_night oldnodes h (hdark o ho) (hload o ho)
      obtain ⟨h4, h5, h6⟩ := ih _ (fun o' ho' => hos o' (List.mem_cons_of_mem _ ho')) h1
      rw [List.foldl_cons]
      refine ⟨h4, ?_, ?_⟩
      · rw [h5, h2, Set.union_assoc]
        congr 1
        ext e
        simp
      · rw [h6, h3, Set.union_assoc]
        congr 1
        ext e
        simp
  obtain ⟨h1, h2, h3⟩ := hfold oldnodes
    { map := m, disappearingLights := .clear, lightSources := .clear } (fun _ ho => ho)
    ⟨.refl m, fun _ => rfl⟩
  refine ⟨h1, h2.trans ?_, h3.trans ?_⟩
  · rw [LightQueue.entries_clear, Set.empty_union]
  · rw [LightQueue.entries_clear, Set.empty_union]

def nightFlood (m : Map) (oldnodes : OldNodes) : Flood V3 where
  raw := m.raw .night
  queue := {e | ∃ o ∈ oldnodes, startLight m oldnodes o.1 < oldNightLight m o ∧
    e = ⟨oldNightLight m o, o.1, none⟩}
  found := {e | ∃ o ∈ oldnodes, 0 < startLight m oldnodes o.1 ∧
    e = ⟨startLight m oldnodes o.1, o.1, none⟩}

theorem lost_iff {p : V3} {k : ℕ} :
    Lost m.Adjacent m.Propagates (nightFlood m oldnodes) p k ↔ LosesLight m oldnodes p k := by
  constructor
  · intro h
    induction h with
    | queued he =>
      obtain ⟨o, ho, hlt, rfl⟩ := he
      exact .changed ho hlt
    | next _ hadj hp hpos hlt ih => exact .next ih hadj hp hpos hlt
  · intro h
    induction h with
    | @changed o ho hlt =>
      exact .queued (e := ⟨oldNightLight m o, o.1, none⟩) ⟨o, ho, hlt, rfl⟩
    | next _ hadj hp hpos hlt ih => exact .next ih hadj hp hpos hlt

end Queues

end Freeminer.Voxel
