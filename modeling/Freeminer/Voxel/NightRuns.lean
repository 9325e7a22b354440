import Freeminer.Voxel.AirFlag
import Freeminer.Voxel.NightUpdate

/-! The night light over runs: `addNodeAndUpdate` and `removeNodeAndUpdate` keep it right. -/

namespace Freeminer.Voxel

open Lib AirMap Map
open Block (MapNode CONTENT_IGNORE)

variable {m₀ m m' : Map} {oldnodes : OldNodes} {st : Flood V3} {raw₁ : V3 → ℕ} {p : V3}
  {n oldnode : MapNode} {s : AirMap}

/-- A changed node is really as bright as it starts. -/
theorem Relit.startLight_le (h : Relit m oldnodes st raw₁ m') (hr : Replaced m₀ m oldnodes)
    {o : V3 × MapNode} (ho : o ∈ oldnodes) : startLight m oldnodes o.1 ≤ m.nightLight o.1 := by
  rcases startLight_supported oldnodes (hr.isSome ho) with hle | ⟨hp, q, hadj, hsafe, hlight⟩
  · exact hle.trans (src_le_lightAt _ _ (source_le_sun m) o.1)
  · have hq := h.kindles.safe h.dimming (h.safe q _ (safe_of_minSafe hsafe hlight))
    have hgrown : glow m.source raw₁ q ≤ _ := glow_mono (h.spreading.grown q)
    have hle := h.spreading.glow_le (fun _ => Nat.le_refl _) (source_le_sun m)
      (Map.raw_le m' .night) q
    have hedge := lightAt_le_succ (source_le_sun m) hadj hp
    change _ ≤ lightAt m.Adjacent m.Propagates m.source o.1
    omega

/-- When one node is replaced, the update is right. -/
theorem nightCorrect_update_single (hc : m₀.NightCorrect) (change : V3 × MapNode) :
    (updateLightingNodes (replaceNodes m₀ [change]).1
      (replaceNodes m₀ [change]).2).NightCorrect := by
  have hr := replaced_replaceNodes m₀ [change]
  have hone : ∀ o ∈ (replaceNodes m₀ [change]).2, (replaceNodes m₀ [change]).2 = [o] := by
    simp only [replaceNodes, List.foldl_cons, List.foldl_nil, replaceNode]
    cases m₀.getNode change.1 <;> simp
  generalize replaceNodes m₀ [change] = r at hr hone
  obtain ⟨hcontent, hother⟩ := updateBank_other .day r.2 r.1
  obtain ⟨st, raw₁, h⟩ := hr.relit hc ⟨hcontent, fun p => hother .night (by decide) p⟩
  refine h.nightCorrect hr fun o ho hp hkeeps => ?_
  -- the limit is the light of the one old node
  have hlimit : minSafeLight r.1 .night r.2 ≤ startLight r.1 r.2 o.1 := by
    apply le_trans _ (hkeeps o ho rfl)
    rw [hone o ho, minSafeLight, List.foldl_cons, List.foldl_nil, oldNightLight]
    dsimp only
    split_ifs <;> simp_all
  rcases lightAt_supported r.1.Adjacent r.1.Propagates (source_le_sun r.1) o.1 with
    hle | ⟨q, hadj, -, hlt⟩
  · exact Or.inl hle
  · refine Or.inr ⟨q, hadj, hlt, ?_⟩
    have hstart := h.startLight_le hr ho
    change r.1.nightLight o.1 < r.1.nightLight q at hlt
    rcases Nat.lt_or_ge (nightGlow r.1 q) (r.1.nightLight q) with hdim | hbright
    · exact Or.inr (Or.inr (Or.inl hdim))
    · exact Or.inr (Or.inr (Or.inr (by omega)))

/-- A node that does the same to light as the one in its place takes over its light. -/
theorem nightCorrect_withLightOf (hc : m.NightCorrect) (hold : m.getNode p = some oldnode)
    (hf : m.getLightingFlags n = m.getLightingFlags oldnode) :
    (m.setNode p (withLightOf m n oldnode)).NightCorrect := by
  have hflags : m.getLightingFlags (withLightOf m n oldnode) = m.getLightingFlags oldnode :=
    (congrArg m.ndef (withLightOf_param0 m n oldnode)).trans hf
  have hraw : getLightRaw (withLightOf m n oldnode) .night (m.getLightingFlags oldnode) =
      getLightRaw oldnode .night (m.getLightingFlags oldnode) := by
    rw [withLightOf, hf, getLightRaw_setLight (getLightRaw_le _ _ _)]
    unfold getLightRaw
    split_ifs <;> simp_all
  generalize withLightOf m n oldnode = n' at hflags hraw ⊢
  have hsame : ∀ q, (m.setNode p n').raw .night q = m.raw .night q ∧
      (m.setNode p n').source q = m.source q ∧
      ((m.setNode p n').Propagates q ↔ m.Propagates q) ∧
      ((m.setNode p n').getNode q).isSome = (m.getNode q).isSome := by
    intro q
    have hndef : (m.setNode p n').getLightingFlags = m.getLightingFlags := rfl
    unfold Map.raw Map.source Map.Propagates
    rw [getNode_setNode, hndef]
    by_cases hq : q = p
    · subst hq
      simp [hold, hflags, hraw]
    · simp [hq]
  have hadj : (m.setNode p n').Adjacent = m.Adjacent := by
    funext q r
    rw [Map.Adjacent, Map.Adjacent, (hsame q).2.2.2, (hsame r).2.2.2]
  intro q hq
  rw [(hsame q).1, Map.nightLight, hadj, funext fun q => propext (hsame q).2.2.1,
    funext fun q => (hsame q).2.1]
  exact hc q ((hsame q).2.2.1.mp hq)

/-- An operation that brings the light up to date with the node that it changes. -/
def AirOp.Lights : AirOp → Prop
  | .addNodeAndUpdate _ n fast => n.param0 ≠ CONTENT_IGNORE ∧ fast ≠ 1 ∧ fast ≠ 2
  | .removeNodeAndUpdate _ fast => fast ≠ 1 ∧ fast ≠ 2
  | .expireIsAirCache _ | .isAir _ => True
  | _ => False

theorem nightCorrect_addNodeAndUpdate (hc : s.map.NightCorrect) (p : V3)
    (hn : n.param0 ≠ CONTENT_IGNORE) {fast : ℤ} (hfast : fast ≠ 1 ∧ fast ≠ 2) :
    (s.addNodeAndUpdate p n fast).map.NightCorrect := by
  rw [addNodeAndUpdate, if_neg (not_or.mpr hfast)]
  cases hold : s.map.getNode p with
  | none => exact hc
  | some oldnode =>
    have hmap : (s.addNodeLit p n oldnode).map =
        if s.map.getLightingFlags n = s.map.getLightingFlags oldnode then
          s.map.setNode p (withLightOf s.map n oldnode)
        else updateLightingNodes (replaceNodes s.map [(p, n)]).1
          (replaceNodes s.map [(p, n)]).2 := by
      unfold addNodeLit setNodeInBlock
      simp only [withLightOf_param0, setLight_param0, if_neg hn, replaceNodes, List.foldl_cons,
        List.foldl_nil, replaceNode, hold]
      split_ifs <;> rfl
    change (s.addNodeLit p n oldnode).map.NightCorrect
    rw [hmap]
    split_ifs with hf
    · exact nightCorrect_withLightOf hc hold hf
    · exact nightCorrect_update_single hc (p, n)

/-- The night light of the whole map stays that from scratch, however many nodes are added and
removed. -/
theorem nightCorrect_run (isClient : Bool) (hc : s.map.NightCorrect) {ops : List AirOp}
    (hops : ∀ op ∈ ops, op.Lights) :
    (ops.foldl (fun s op => (s.step isClient op).1) s).map.NightCorrect := by
  refine List.foldlRecOn (motive := fun s : AirMap => s.map.NightCorrect) ops _ hc
    fun s hc op hmem => ?_
  have hop := hops op hmem
  cases op with
  | addNodeAndUpdate p n fast => exact nightCorrect_addNodeAndUpdate hc p hop.1 hop.2
  | removeNodeAndUpdate p fast => exact nightCorrect_addNodeAndUpdate hc p (by decide) hop
  | expireIsAirCache blockpos => exact hc
  | isAir blockpos =>
    simp only [step, getIsAir]
    cases s.map.block blockpos with
    | none => exact hc
    | some block => cases s.isAir blockpos <;> exact hc
  | _ => exact hop.elim

/-- Air next to the lamp, and the torch is taken away. -/
theorem nightCorrect_run_lampMap :
    ([.addNodeAndUpdate ⟨1, 0, 0⟩ ⟨2, 0, 0⟩ 0, .removeNodeAndUpdate ⟨5, 0, 0⟩ 0].foldl
      (fun s op => (step false s op).1) { map := lampMap }).map.NightCorrect :=
  nightCorrect_run false nightCorrect_lampMap (by simp [AirOp.Lights, CONTENT_IGNORE])

end Freeminer.Voxel
