import Freeminer.Voxel.Unspread

/-! `spread_light`: spreads light from nodes that have theirs, after their light has been stored. -/

namespace Freeminer.Voxel

open Lib
open Block (MapNode)

/-- A neighbour gets the light that a node can provide, if it has less. -/
def spreadNeighbor (bank : LightBank) (spreadingLight : ℕ) (current : ChangingLight)
    (st : Map × LightQueue) (i : ℕ) : Map × LightQueue :=
  if current.sourceDirection + i = 5 then st
  else
    let next := stepRelBlockPos i current.relPosition current.blockPosition
    match st.1.getBlockNode next.2 next.1 with
    | none => st
    | some neighbor =>
      let f := st.1.getLightingFlags neighbor
      if f.lightPropagates = true ∧ getLightRaw neighbor bank f < spreadingLight then
        (st.1.setBlockNode next.2 next.1 (setLight neighbor bank spreadingLight f),
          st.2.push spreadingLight ⟨next.1, next.2, i⟩)
      else st

/-- A node of the queue; its light is a byte, from which one is taken. -/
def spreadNode (bank : LightBank) (light : ℕ) (current : ChangingLight) (m : Map)
    (lightSources : LightQueue) : Map × LightQueue :=
  directions.foldl (spreadNeighbor bank ((light + 255) % 256) current) (m, lightSources)

/-- The loop; `fuel` is more than the weight of the queue. -/
def spreadLoop (bank : LightBank) : ℕ → Map → LightQueue → Map
  | 0, m, _ => m
  | fuel + 1, m, lightSources =>
    match lightSources.next with
    | none => m
    | some (light, current, lightSources) =>
      let r := spreadNode bank light current m lightSources
      spreadLoop bank fuel r.1 r.2

def spreadLight (bank : LightBank) (m : Map) (lightSources : LightQueue) : Map :=
  spreadLoop bank (lightSources.weight + 1) m lightSources

def initLight (bank : LightBank) (light : ℕ) (m : Map) (c : ChangingLight) : Map :=
  match m.getBlockNode c.blockPosition c.relPosition with
  | none => m
  | some n =>
    m.setBlockNode c.blockPosition c.relPosition (setLight n bank light (m.getLightingFlags n))

/-- The loop over the levels up to `maxLight` that stores the light of all nodes of a queue. -/
def initLights (bank : LightBank) (maxLight : ℕ) (m : Map) (lightSources : LightQueue) : Map :=
  (List.range (maxLight + 1)).foldl
    (fun m light => (lightSources.lights light).reverse.foldl (initLight bank light) m) m

section Lit

variable {bank : LightBank} {light : ℕ} {c : ChangingLight} {m₀ m : Map}
  {q q₀ : LightQueue} {st : Map × LightQueue} {i : ℕ} {ds : List ℕ}

/-- The loop has lit the neighbours in the directions `ds`; it started with the map `m₀` and the
queue `q₀`. -/
structure LitUp (bank : LightBank) (light : ℕ) (c : ChangingLight) (m₀ : Map) (q₀ : LightQueue)
    (ds : List ℕ) (st : Map × LightQueue) : Prop where
  content : Map.SameContent m₀ st.1
  other : ∀ bank' ≠ bank, ∀ v, st.1.raw bank' v = m₀.raw bank' v
  raised : ∀ v, st.1.raw bank v = m₀.raw bank v ∨ m₀.Adjacent c.pos v ∧ m₀.Propagates v ∧
    m₀.raw bank v < st.1.raw bank v ∧ st.1.raw bank v + 1 = light ∧
    ∃ e ∈ st.2.entries, e.node = v ∧ e.level = st.1.raw bank v
  reach : ∀ i ∈ ds, c.source ≠ some (c.pos + neighborDirs i) →
    m₀.Propagates (c.pos + neighborDirs i) → light ≤ st.1.raw bank (c.pos + neighborDirs i) + 1
  kept : q₀.entries ⊆ st.2.entries
  queued : ∀ e ∈ st.2.entries, e ∈ q₀.entries ∨ e.source = some c.pos ∧ m₀.Adjacent c.pos e.node ∧
    m₀.Propagates e.node ∧ e.level + 1 = light ∧ 0 < e.level ∧ st.1.raw bank e.node = e.level ∧
    m₀.raw bank e.node < e.level
  ok : st.2.Ok
  maxLight : st.2.maxLight = light
  weight : st.2.weight ≤ q₀.weight + ds.length * (7 ^ light / 7)

/-- A neighbour at which nothing is done. -/
theorem LitUp.cons_same (h : LitUp bank light c m₀ q₀ ds st)
    (hreach : c.source ≠ some (c.pos + neighborDirs i) → m₀.Propagates (c.pos + neighborDirs i) →
      light ≤ st.1.raw bank (c.pos + neighborDirs i) + 1) :
    LitUp bank light c m₀ q₀ (i :: ds) st := by
  refine ⟨h.content, h.other, h.raised, fun j hj => ?_, h.kept, h.queued, h.ok, h.maxLight, ?_⟩
  · cases List.mem_cons.mp hj with
    | inl heq => exact heq ▸ hreach
    | inr hin => exact h.reach j hin
  · refine h.weight.trans (Nat.add_le_add_left ?_ _)
    exact Nat.mul_le_mul_right _ (Nat.le_succ _)

theorem LitUp.cons_lit (h : LitUp bank light c m₀ q₀ ds st) (hc : InBlock c.relPosition)
    (hi : i < 6) (hlight : light ≤ LIGHT_SUN) {n : MapNode}
    (hn : st.1.getNode (c.pos + neighborDirs i) = some n)
    (hadj : m₀.Adjacent c.pos (c.pos + neighborDirs i))
    (hp : m₀.Propagates (c.pos + neighborDirs i))
    (hlt : st.1.raw bank (c.pos + neighborDirs i) < light - 1) :
    LitUp bank light c m₀ q₀ (i :: ds)
      (st.1.setNode (c.pos + neighborDirs i)
          (setLight n bank (light - 1) (st.1.getLightingFlags n)),
        st.2.push (light - 1) ⟨(stepRelBlockPos i c.relPosition c.blockPosition).1,
          (stepRelBlockPos i c.relPosition c.blockPosition).2, i⟩) := by
  obtain ⟨hin, hnext, hsource⟩ := pos_source_step hc hi
  have hflag : (st.1.getLightingFlags n).lightPropagates = true :=
    (Map.propagates_iff hn).mp (h.content.propagates ▸ hp)
  have hraw : ∀ bank' v, (st.1.setNode (c.pos + neighborDirs i)
      (setLight n bank (light - 1) (st.1.getLightingFlags n))).raw bank' v =
      if bank' = bank ∧ v = c.pos + neighborDirs i then light - 1 else st.1.raw bank' v := by
    intro bank' v
    rw [Map.raw_setLight hn ((Nat.sub_le _ _).trans hlight)]
    simp only [hflag, and_true]
  have hle : light - 1 ≤ LIGHT_SUN := (Nat.sub_le _ _).trans hlight
  have hmax : light - 1 ≤ st.2.maxLight := by
    rw [h.maxLight]
    exact Nat.sub_le light 1
  obtain ⟨hok, hmaxLight⟩ := LightQueue.ok_push h.ok hmax
    (c := ⟨(stepRelBlockPos i c.relPosition c.blockPosition).1,
      (stepRelBlockPos i c.relPosition c.blockPosition).2, i⟩) hin
  have hentries := LightQueue.entries_push hle st.2
    ⟨(stepRelBlockPos i c.relPosition c.blockPosition).1,
      (stepRelBlockPos i c.relPosition c.blockPosition).2, i⟩
  rw [ChangingLight.entry, hnext, hsource] at hentries
  -- the light of the neighbour has not been raised before, or to less
  have hmin : m₀.raw bank (c.pos + neighborDirs i) < light - 1 := by
    rcases h.raised (c.pos + neighborDirs i) with hsame | ⟨-, -, hlow, -⟩
    · exact hsame ▸ hlt
    · exact hlow.trans hlt
  refine ⟨h.content.trans (Map.sameContent_setNode hn bank _), fun bank' hb v => ?_, fun v => ?_,
    fun j hj hs hp' => ?_, ?_, fun e he => ?_, hok, hmaxLight.trans h.maxLight, ?_⟩
  · dsimp only
    rw [hraw, if_neg fun hand => hb hand.1]
    exact h.other bank' hb v
  · dsimp only
    rw [hraw]
    split_ifs with hv
    · obtain ⟨-, rfl⟩ := hv
      refine Or.inr ⟨hadj, hp, hmin, by omega, ?_⟩
      rw [hentries]
      exact ⟨_, Set.mem_insert _ _, rfl, rfl⟩
    · rcases h.raised v with hv | ⟨h1, h2, h3, h4, e, he, h5⟩
      · exact Or.inl hv
      · refine Or.inr ⟨h1, h2, h3, h4, e, ?_, h5⟩
        rw [hentries]
        exact Set.mem_insert_of_mem _ he
  · dsimp only
    rw [hraw]
    split_ifs with hv
    · omega
    · cases List.mem_cons.mp hj with
      | inl heq => exact absurd ⟨rfl, heq ▸ rfl⟩ hv
      | inr hin => exact h.reach j hin hs hp'
  · dsimp only
    rw [hentries]
    exact h.kept.trans (Set.subset_insert _ _)
  · dsimp only at he ⊢
    rw [hentries, Set.mem_insert_iff] at he
    cases he with
    | inl heq =>
      subst heq
      refine Or.inr ⟨rfl, hadj, hp, ?_, ?_, ?_, hmin⟩
      · dsimp only
        omega
      · dsimp only
        omega
      · dsimp only
        rw [hraw, if_pos ⟨rfl, rfl⟩]
    | inr hin =>
      refine (h.queued e hin).imp_right fun hq => ?_
      obtain ⟨h1, h2, h3, h4, h5, h6, h7⟩ := hq
      refine ⟨h1, h2, h3, h4, h5, ?_, h7⟩
      rw [hraw]
      split_ifs
      · omega
      · exact h6
  · dsimp only
    rw [LightQueue.weight_push hle, List.length_cons, Nat.add_mul, Nat.one_mul, ← Nat.add_assoc]
    apply Nat.add_le_add h.weight
    rw [Nat.le_div_iff_mul_le (by decide), ← Nat.pow_succ]
    exact Nat.pow_le_pow_right (by decide) (by omega)

theorem LitUp.step (h : LitUp bank light c m₀ q₀ ds st) (hc : InBlock c.relPosition)
    (hloaded : (m₀.getNode c.pos).isSome = true) (hi : i < 6) (hlight : light ≤ LIGHT_SUN) :
    LitUp bank light c m₀ q₀ (i :: ds) (spreadNeighbor bank (light - 1) c st i) := by
  obtain ⟨hin, hpos⟩ := stepRelBlockPos_spec hc hi c.blockPosition
  have hpos : nodePos (stepRelBlockPos i c.relPosition c.blockPosition).2
      (stepRelBlockPos i c.relPosition c.blockPosition).1 = c.pos + neighborDirs i := hpos
  unfold spreadNeighbor
  split_ifs with hskip
  · exact h.cons_same fun hs => absurd ((source_eq_iff hi).mpr hskip) hs
  · dsimp only
    rw [Map.getBlockNode_eq _ _ hin, hpos]
    cases hn : st.1.getNode (c.pos + neighborDirs i) with
    | none =>
      refine h.cons_same fun _ hp => ?_
      obtain ⟨n, hn', -⟩ := h.content.propagates ▸ hp
      rw [hn] at hn'
      cases hn'
    | some n =>
      have hq : (m₀.getNode (c.pos + neighborDirs i)).isSome = true := by
        rw [← h.content.isSome, hn]
        rfl
      have hadj : m₀.Adjacent c.pos (c.pos + neighborDirs i) := ⟨hloaded, hq, i, hi, rfl⟩
      have hraw : st.1.raw bank (c.pos + neighborDirs i) =
          getLightRaw n bank (st.1.getLightingFlags n) := Map.raw_of_getNode hn
      have hflag : m₀.Propagates (c.pos + neighborDirs i) ↔
          (st.1.getLightingFlags n).lightPropagates = true := by
        rw [← h.content.propagates]
        exact Map.propagates_iff hn
      dsimp only
      rw [Map.setBlockNode_eq _ _ hin, hpos, ← hraw]
      split_ifs with hlow
      · exact h.cons_lit hc hi hlight hn hadj (hflag.mpr hlow.1) hlow.2
      · refine h.cons_same fun _ hp => ?_
        by_contra hlt
        exact hlow ⟨hflag.mp hp, by omega⟩

theorem LitUp.foldl (hc : InBlock c.relPosition) (hloaded : (m₀.getNode c.pos).isSome = true)
    (hlight : light ≤ LIGHT_SUN) :
    ∀ {dirs ds : List ℕ} {st : Map × LightQueue}, (∀ i ∈ dirs, i < 6) →
      LitUp bank light c m₀ q₀ ds st →
      LitUp bank light c m₀ q₀ (dirs.reverse ++ ds)
        (dirs.foldl (spreadNeighbor bank (light - 1) c) st) := by
  intro dirs
  induction dirs with
  | nil => exact fun _ h => h
  | cons i dirs ih =>
    intro ds st hdirs h
    have hi := hdirs i List.mem_cons_self
    rw [List.reverse_cons, List.append_assoc, List.singleton_append, List.foldl_cons]
    exact ih (fun j hj => hdirs j (List.mem_cons_of_mem _ hj)) (h.step hc hloaded hi hlight)

/-- What a node of the queue `q` does. -/
structure NodeSpread (bank : LightBank) (m : Map) (q : LightQueue) (e : Entry V3)
    (r : Map × LightQueue) : Prop where
  spreads : Spreads m.Adjacent m.Propagates e (m.raw bank) (r.1.raw bank) q.entries r.2.entries
  content : Map.SameContent m r.1
  other : ∀ bank' ≠ bank, ∀ v, r.1.raw bank' v = m.raw bank' v
  ok : r.2.Ok
  pos : ∀ e ∈ r.2.entries, 0 < e.level
  loaded : ∀ e ∈ r.2.entries, (m.getNode e.node).isSome = true
  weight : r.2.weight < q.weight

variable (bank) in
theorem spreadNode_spec (hnext : LightQueue.Next q light c q₀)
    (hpos : ∀ e ∈ q.entries, 0 < e.level)
    (hloaded : ∀ e ∈ q.entries, (m.getNode e.node).isSome = true) :
    NodeSpread bank m q (c.entry light) (spreadNode bank light c m q₀) := by
  have hlight : 0 < light := hpos _ hnext.mem
  have hload : (m.getNode c.pos).isSome = true := hloaded _ hnext.mem
  have hwrap : (light + 255) % 256 = light - 1 := by
    have := hnext.light_le
    unfold LIGHT_SUN at this
    omega
  have h : LitUp bank light c m q₀ (directions.reverse ++ []) (spreadNode bank light c m q₀) := by
    rw [spreadNode, hwrap]
    apply LitUp.foldl hnext.inBlock hload hnext.light_le (by decide)
    exact ⟨.refl m, fun _ _ _ => rfl, fun _ => Or.inl rfl, by simp, Set.Subset.refl _,
      fun _ he => Or.inl he, hnext.ok, hnext.maxLight, by simp⟩
  generalize spreadNode bank light c m q₀ = r at h
  refine ⟨⟨hnext.mem, h.raised, fun v hadj hopen hs => ?_, fun e he => ?_, fun e he => ?_⟩,
    h.content, h.other, h.ok, fun e he => ?_, fun e he => ?_, ?_⟩
  · obtain ⟨_, _, i, hi, rfl⟩ := hadj
    refine h.reach i ?_ hs hopen
    interval_cases i <;> simp [directions]
  · exact (hnext.kept e he).imp_right fun hin => h.kept hin
  · rcases h.queued e he with hin | ⟨h1, -, h3, h4, -, h6, h7⟩
    · exact Or.inl (hnext.subset hin)
    · exact Or.inr ⟨h1, h3, h4, h6, h7⟩
  · rcases h.queued e he with hin | ⟨-, -, -, -, hlevel, -⟩
    · exact hpos e (hnext.subset hin)
    · exact hlevel
  · rcases h.queued e he with hin | ⟨-, hadj, -⟩
    · exact hloaded e (hnext.subset hin)
    · exact hadj.2.1
  · have := h.weight
    have := hnext.weight
    have := Nat.pow_pos (n := light) (show 0 < 7 by decide)
    simp only [directions, List.reverse_cons, List.reverse_nil, List.nil_append, List.append_nil,
      List.cons_append, List.length_cons, List.length_nil] at *
    omega

/-- What the whole spreading does: any `P` that its steps preserve holds at its end. -/
structure SpreadsAll (bank : LightBank) (m : Map) (P : (V3 → ℕ) → Set (Entry V3) → Prop)
    (m' : Map) : Prop where
  content : Map.SameContent m m'
  other : ∀ bank' ≠ bank, ∀ v, m'.raw bank' v = m.raw bank' v
  holds : P (m'.raw bank) ∅

theorem spreadLoop_spec {P : (V3 → ℕ) → Set (Entry V3) → Prop} {nbr : V3 → V3 → Prop}
    {opens : V3 → Prop}
    (hP : ∀ e raw raw' q q', P raw q → Spreads nbr opens e raw raw' q q' → P raw' q') (fuel : ℕ) :
    ∀ (m : Map) (q : LightQueue), m.Adjacent = nbr → m.Propagates = opens → q.weight < fuel →
      q.Ok → (∀ e ∈ q.entries, 0 < e.level) →
      (∀ e ∈ q.entries, (m.getNode e.node).isSome = true) → P (m.raw bank) q.entries →
      SpreadsAll bank m P (spreadLoop bank fuel m q) := by
  induction fuel with
  | zero => exact fun _ _ _ _ hw => absurd hw (Nat.not_lt_zero _)
  | succ fuel ih =>
    intro m q hnbr hopens hw hq hpos hload hholds
    unfold spreadLoop
    cases hnext : q.next with
    | none =>
      refine ⟨.refl m, fun _ _ _ => rfl, ?_⟩
      rwa [LightQueue.next_none hq hnext] at hholds
    | some r =>
      obtain ⟨light, c, q'⟩ := r
      have hnode := spreadNode_spec bank (LightQueue.next_some hq hnext) hpos hload
      dsimp only
      generalize spreadNode bank light c m q' = r at hnode
      have hload' : ∀ e ∈ r.2.entries, (r.1.getNode e.node).isSome = true := fun e he =>
        (hnode.content.isSome e.node).trans (hnode.loaded e he)
      obtain ⟨hcontent, hother, hdone⟩ := ih r.1 r.2 (hnode.content.adjacent.trans hnbr)
        (hnode.content.propagates.trans hopens)
        (Nat.lt_of_lt_of_le hnode.weight (Nat.le_of_lt_succ hw)) hnode.ok hnode.pos hload'
        (hP _ _ _ _ _ hholds (hnbr ▸ hopens ▸ hnode.spreads))
      exact ⟨hnode.content.trans hcontent,
        fun bank' hb v => (hother bank' hb v).trans (hnode.other bank' hb v), hdone⟩

variable (bank) in
/-- `spread_light` keeps what its steps keep, until no node is left. -/
theorem spreadLight_spec {P : (V3 → ℕ) → Set (Entry V3) → Prop}
    (hP : ∀ e raw raw' q q', P raw q → Spreads m.Adjacent m.Propagates e raw raw' q q' → P raw' q')
    (hs : Sources m q) (h : P (m.raw bank) q.entries) :
    SpreadsAll bank m P (spreadLight bank m q) :=
  spreadLoop_spec hP _ m q rfl rfl (Nat.lt_succ_self _) hs.ok hs.pos hs.loaded h

end Lit

section Init

variable {bank : LightBank} {light : ℕ} {c : ChangingLight} {m₀ m : Map} {q : LightQueue}
  {cs : List ChangingLight}

variable (bank) in
/-- The light of the nodes of a list is stored, of those that store any. -/
theorem initLight_foldl (hlight : light ≤ LIGHT_SUN) : ∀ (cs : List ChangingLight) (m : Map),
    (∀ c ∈ cs, InBlock c.relPosition) →
    Map.SameContent m (cs.foldl (initLight bank light) m) ∧
      ∀ bank' v, ((∃ c ∈ cs, c.pos = v) ∧ m.Propagates v ∧ bank' = bank →
          (cs.foldl (initLight bank light) m).raw bank' v = light) ∧
        (¬ ((∃ c ∈ cs, c.pos = v) ∧ m.Propagates v ∧ bank' = bank) →
          (cs.foldl (initLight bank light) m).raw bank' v = m.raw bank' v) := by
  intro cs
  induction cs with
  | nil => exact fun m _ => ⟨.refl m, fun bank' v => ⟨by simp, fun _ => rfl⟩⟩
  | cons c cs ih =>
    intro m hin
    rw [List.foldl_cons]
    have hc := hin c List.mem_cons_self
    have hstep : Map.SameContent m (initLight bank light m c) ∧ ∀ bank' v,
        (c.pos = v ∧ m.Propagates v ∧ bank' = bank → (initLight bank light m c).raw bank' v = light) ∧
        (¬ (c.pos = v ∧ m.Propagates v ∧ bank' = bank) →
          (initLight bank light m c).raw bank' v = m.raw bank' v) := by
      unfold initLight
      rw [Map.getBlockNode_eq _ _ hc]
      cases hn : m.getNode (nodePos c.blockPosition c.relPosition) with
      | none =>
        refine ⟨.refl m, fun bank' v => ⟨?_, fun _ => rfl⟩⟩
        rintro ⟨rfl, ⟨n, hn', -⟩, -⟩
        rw [show c.pos = nodePos c.blockPosition c.relPosition from rfl, hn] at hn'
        cases hn'
      | some n =>
        have hflag := Map.propagates_iff hn
        dsimp only
        rw [Map.setBlockNode_eq _ _ hc]
        refine ⟨Map.sameContent_setNode hn bank light, fun bank' v => ⟨?_, fun hnot => ?_⟩⟩
        · rintro ⟨rfl, hp, rfl⟩
          rw [Map.raw_setLight hn hlight, if_pos ⟨rfl, rfl, hflag.mp hp⟩]
        · rw [Map.raw_setLight hn hlight, if_neg]
          rintro ⟨rfl, rfl, hp⟩
          exact hnot ⟨rfl, hflag.mpr hp, rfl⟩
    obtain ⟨hsame, hset⟩ := ih (initLight bank light m c)
      (fun c' hc' => hin c' (List.mem_cons_of_mem _ hc'))
    rw [hstep.1.propagates] at hset
    refine ⟨hstep.1.trans hsame, fun bank' v => ⟨?_, fun hnot => ?_⟩⟩
    · rintro ⟨⟨c', hc', hv⟩, hp, hb⟩
      by_cases hcs : ∃ c ∈ cs, c.pos = v
      · exact (hset bank' v).1 ⟨hcs, hp, hb⟩
      · rw [(hset bank' v).2 fun h => hcs h.1]
        cases List.mem_cons.mp hc' with
        | inl heq => exact (hstep.2 bank' v).1 ⟨heq ▸ hv, hp, hb⟩
        | inr hin => exact absurd ⟨c', hin, hv⟩ hcs
    · rw [(hset bank' v).2, (hstep.2 bank' v).2]
      · exact fun h => hnot ⟨⟨c, List.mem_cons_self, h.1⟩, h.2⟩
      · rintro ⟨⟨c', hc', hv⟩, h⟩
        exact hnot ⟨⟨c', List.mem_cons_of_mem _ hc', hv⟩, h⟩

/-- The levels below `k` have been stored. -/
structure InitBelow (bank : LightBank) (m₀ : Map) (q : LightQueue) (k : ℕ) (m : Map) : Prop where
  content : Map.SameContent m₀ m
  other : ∀ bank' ≠ bank, ∀ v, m.raw bank' v = m₀.raw bank' v
  shut : ∀ v, ¬ m₀.Propagates v → m.raw bank v = m₀.raw bank v
  same : ∀ v, (∀ e ∈ q.entries, e.node = v → k ≤ e.level) → m.raw bank v = m₀.raw bank v
  lit : ∀ v, m₀.Propagates v → (∃ e ∈ q.entries, e.node = v ∧ e.level < k) →
    (∃ e ∈ q.entries, e.node = v ∧ e.level < k ∧ e.level = m.raw bank v) ∧
      ∀ e ∈ q.entries, e.node = v → e.level < k → e.level ≤ m.raw bank v

theorem InitBelow.step {k : ℕ} (h : InitBelow bank m₀ q k m) (hk : k ≤ LIGHT_SUN) (hq : q.Ok) :
    InitBelow bank m₀ q (k + 1) ((q.lights k).reverse.foldl (initLight bank k) m) := by
  have hin : ∀ c ∈ (q.lights k).reverse, InBlock c.relPosition := fun c hc =>
    hq.inBlock k c (List.mem_reverse.mp hc)
  obtain ⟨hsame, hset⟩ := initLight_foldl bank hk (q.lights k).reverse m hin
  rw [h.content.propagates] at hset
  have hat : ∀ v, (∃ c ∈ (q.lights k).reverse, c.pos = v) ↔
      ∃ e ∈ q.entries, e.node = v ∧ e.level = k := by
    intro v
    constructor
    · rintro ⟨c, hc, hv⟩
      exact ⟨c.entry k, ⟨k, c, List.mem_reverse.mp hc, rfl⟩, hv, rfl⟩
    · rintro ⟨e, he, hv, rfl⟩
      obtain ⟨c, hc, heq⟩ := LightQueue.mem_entries.mp he
      exact ⟨c, List.mem_reverse.mpr hc, hv ▸ (congrArg Entry.node heq).symm⟩
  refine ⟨h.content.trans hsame, fun bank' hb v => ?_, fun v hv => ?_, fun v hv => ?_,
    fun v hp hv => ?_⟩
  · rw [(hset bank' v).2 fun hall => hb hall.2.2]
    exact h.other bank' hb v
  · rw [(hset bank v).2 fun hall => hv hall.2.1]
    exact h.shut v hv
  · rw [(hset bank v).2]
    · exact h.same v fun e he hnode => (Nat.le_succ k).trans (hv e he hnode)
    · rintro ⟨hex, -⟩
      obtain ⟨e, he, hnode, hlevel⟩ := (hat v).mp hex
      have := hv e he hnode
      omega
  · by_cases hnow : ∃ e ∈ q.entries, e.node = v ∧ e.level = k
    · rw [(hset bank v).1 ⟨(hat v).mpr hnow, hp, rfl⟩]
      obtain ⟨e, he, hnode, hlevel⟩ := hnow
      exact ⟨⟨e, he, hnode, by omega, hlevel⟩, fun e' _ _ hlt => Nat.le_of_lt_succ hlt⟩
    · rw [(hset bank v).2 fun hall => hnow ((hat v).mp hall.1)]
      have hbelow : ∀ e ∈ q.entries, e.node = v → e.level < k + 1 → e.level < k := by
        intro e he hnode hlt
        exact Nat.lt_of_le_of_ne (Nat.le_of_lt_succ hlt) fun heq => hnow ⟨e, he, hnode, heq⟩
      obtain ⟨e, he, hnode, hlt⟩ := hv
      obtain ⟨⟨e', he', hnode', hlt', heq⟩, hmax⟩ :=
        h.lit v hp ⟨e, he, hnode, hbelow e he hnode hlt⟩
      exact ⟨⟨e', he', hnode', Nat.lt_succ_of_lt hlt', heq⟩,
        fun e he hnode hlt => hmax e he hnode (hbelow e he hnode hlt)⟩

variable (bank) in
theorem initBelow_initLights {maxLight : ℕ} (hq : q.Ok) (hmax : maxLight ≤ LIGHT_SUN) (m : Map) :
    InitBelow bank m q (maxLight + 1) (initLights bank maxLight m q) := by
  have hall : ∀ k ≤ maxLight + 1, InitBelow bank m q k ((List.range k).foldl
      (fun m light => (q.lights light).reverse.foldl (initLight bank light) m) m) := by
    intro k
    induction k with
    | zero =>
      intro _
      refine ⟨.refl m, fun _ _ _ => rfl, fun _ _ => rfl, fun _ _ => rfl, ?_⟩
      rintro v _ ⟨e, -, -, hlt⟩
      exact absurd hlt (Nat.not_lt_zero _)
    | succ k ih =>
      intro hk
      rw [List.range_succ, List.foldl_append, List.foldl_cons, List.foldl_nil]
      exact (ih (Nat.le_of_succ_le hk)).step ((Nat.le_of_succ_le_succ hk).trans hmax) hq
  exact hall _ (Nat.le_refl _)

variable (bank) in
/-- All levels are stored: the sources are kindled. -/
theorem kindles_initLights (hq : q.Ok) (m : Map) (queue : Set (Entry V3)) :
    Kindles m.Propagates ⟨m.raw bank, queue, q.entries⟩
      ((initLights bank LIGHT_SUN m q).raw bank) := by
  have h := initBelow_initLights bank hq (Nat.le_refl _) m
  have hle : ∀ e ∈ q.entries, e.level < LIGHT_SUN + 1 := by
    rintro e ⟨light, c, hc, rfl⟩
    exact Nat.lt_succ_of_le ((hq.le light c hc).trans hq.maxLight_le)
  refine ⟨h.shut, fun v hv => h.same v fun e he hnode => absurd hnode (hv e he), fun v hp hv => ?_⟩
  obtain ⟨e, he, hnode⟩ := hv
  obtain ⟨⟨e', he', hnode', -, heq⟩, hmax⟩ := h.lit v hp ⟨e, he, hnode, hle e he⟩
  exact ⟨⟨e', he', hnode', heq.ge⟩, fun e he hnode => hmax e he hnode (hle e he)⟩

end Init

end Freeminer.Voxel
