import Freeminer.Server.BlockMake

/-! Chunks are reserved just while they are generated, in runs where no init fails at the limits and
none is cancelled. -/

namespace Freeminer.Server

open Lib Database
open Voxel (V3 MAP_BLOCKSIZE)

variable {w : PosWidth} {params : MapgenParams}

/-! ## Chunks -/

theorem narrow_spec (w : PosWidth) (x : ℤ) :
    (∃ k, x = narrow w x + 2 ^ w.bits * k) ∧ -2 ^ (w.bits - 1) ≤ narrow w x ∧
      narrow w x < 2 ^ (w.bits - 1) := by
  have hlo := Int.le_bmod (x := x) (m := 2 ^ w.bits) (by positivity)
  have hhi := Int.bmod_lt (x := x) (m := 2 ^ w.bits) (by positivity)
  refine ⟨⟨x.bdiv (2 ^ w.bits), ?_⟩, ?_⟩
  · have := Int.bmod_add_bdiv x (2 ^ w.bits)
    unfold narrow
    push_cast at this
    exact this.symm
  · unfold narrow
    cases w <;> simp only [PosWidth.bits] at hlo hhi ⊢ <;> omega

theorem getContainerPos_spec {p d : ℤ} (hd : 1 ≤ d) :
    getContainerPos p d * d ≤ p ∧ p < getContainerPos p d * d + d := by
  have hpos : 0 < d := by omega
  unfold getContainerPos
  split_ifs with hp
  · rw [Int.tdiv_eq_ediv_of_nonneg hp]
    have hmod := Int.emod_nonneg p (by omega : d ≠ 0)
    have hlt := Int.emod_lt_of_pos p hpos
    have hdiv := Int.mul_ediv_add_emod p d
    rw [mul_comm] at hdiv
    omega
  · have hneg : p - d + 1 = -(d - 1 - p) := by ring
    rw [hneg, Int.neg_tdiv, Int.tdiv_eq_ediv_of_nonneg (by omega), neg_mul]
    have hmod := Int.emod_nonneg (d - 1 - p) (by omega : d ≠ 0)
    have hlt := Int.emod_lt_of_pos (d - 1 - p) hpos
    have hdiv := Int.mul_ediv_add_emod (d - 1 - p) d
    rw [mul_comm] at hdiv
    omega

theorem narrow_container {p d : ℤ} (hd : 1 ≤ d) (hp : -2 ^ (w.bits - 1) ≤ p)
    (hp' : p < 2 ^ (w.bits - 1)) (hlo : getContainerPos p d * d ≤ p)
    (hhi : p < getContainerPos p d * d + d) :
    narrow w (getContainerPos p d) = getContainerPos p d := by
  generalize getContainerPos p d = c at *
  have hge : -2 ^ (w.bits - 1) ≤ c := by
    by_contra hlt
    nlinarith
  have hlt : c < 2 ^ (w.bits - 1) := by
    by_contra hge
    nlinarith
  obtain ⟨⟨k, hk⟩, hr⟩ := narrow_spec w c
  cases w <;> simp only [PosWidth.bits] at * <;> omega

/-- A chunk that is inside the limits lies on the grid of chunks, and nothing overflowed. -/
theorem containingChunk_inside {limit b d : ℤ} (hd : 1 ≤ d) (hd' : d ≤ 999)
    (hlimit : limit * 16 ≤ 2 ^ (w.bits - 1))
    (hmin : -limit ≤ narrow w (containingChunk w b d - 1))
    (hmin' : narrow w (containingChunk w b d - 1) ≤ limit) :
    (∃ k, containingChunk w b d = k * d + (-d).tdiv 2) ∧
      chunkEnd w (containingChunk w b d) d = containingChunk w b d + d - 1 ∧
      narrow w (containingChunk w b d - 1) = containingChunk w b d - 1 ∧
      narrow w (chunkEnd w (containingChunk w b d) d + 1) =
        chunkEnd w (containingChunk w b d) d + 1 := by
  have hoff : (-d).tdiv 2 = -(d / 2) := by
    rw [Int.neg_tdiv, Int.tdiv_eq_ediv_of_nonneg (by omega)]
  unfold containingChunk at hmin hmin' ⊢
  dsimp only at hmin hmin' ⊢
  obtain ⟨hlo, hhi⟩ := getContainerPos_spec (p := narrow w (b - (-d).tdiv 2)) hd
  obtain ⟨-, hp, hp'⟩ := narrow_spec w (b - (-d).tdiv 2)
  generalize narrow w (b - (-d).tdiv 2) = p at *
  have hcontainer := narrow_container hd hp hp' hlo hhi
  generalize getContainerPos p d = c at *
  rw [hcontainer] at hmin hmin' ⊢
  generalize hT : c * d = T at *
  obtain ⟨⟨k₁, h₁⟩, hr₁⟩ := narrow_spec w T
  generalize narrow w T = n at *
  obtain ⟨⟨k₂, h₂⟩, hr₂⟩ := narrow_spec w (n + (-d).tdiv 2)
  generalize narrow w (n + (-d).tdiv 2) = m at *
  obtain ⟨⟨k₃, h₃⟩, hr₃⟩ := narrow_spec w (m - 1)
  generalize narrow w (m - 1) = lo at *
  unfold chunkEnd
  obtain ⟨⟨k₄, h₄⟩, hr₄⟩ := narrow_spec w (m + d)
  generalize narrow w (m + d) = e at *
  obtain ⟨⟨k₅, h₅⟩, hr₅⟩ := narrow_spec w (e - 1)
  generalize narrow w (e - 1) = f at *
  obtain ⟨⟨k₆, h₆⟩, hr₆⟩ := narrow_spec w (f + 1)
  generalize narrow w (f + 1) = g at *
  rw [hoff] at *
  have hall : m = T + -(d / 2) ∧ f = m + d - 1 ∧ lo = m - 1 ∧ g = f + 1 := by
    clear hcontainer hT
    cases w <;> simp only [PosWidth.bits] at * <;> omega
  exact ⟨⟨c, hT ▸ hall.1⟩, hall.2⟩

/-- Of two stretches of a grid that share a point, both begin at the same place. -/
theorem grid_eq {d o k l x : ℤ} (h : k * d + o ≤ x ∧ x ≤ k * d + o + d - 1)
    (h' : l * d + o ≤ x ∧ x ≤ l * d + o + d - 1) : k * d + o = l * d + o := by
  have hle : k ≤ l := by
    by_contra hlt
    have : l + 1 ≤ k := by omega
    nlinarith
  have hge : l ≤ k := by
    by_contra hlt
    have : k + 1 ≤ l := by omega
    nlinarith
  rw [le_antisymm hle hge]

/-- A chunk on the grid, with a border that did not overflow. -/
structure Placed (w : PosWidth) (params : MapgenParams) (data : BlockMakeData) : Prop where
  grid : (∃ k, data.blockpos_min.X = k * params.chunksize.X + (-params.chunksize.X).tdiv 2) ∧
    (∃ k, data.blockpos_min.Y = k * params.chunksize.Y + (-params.chunksize.Y).tdiv 2) ∧
    ∃ k, data.blockpos_min.Z = k * params.chunksize.Z + (-params.chunksize.Z).tdiv 2
  size : data.blockpos_max.X = data.blockpos_min.X + params.chunksize.X - 1 ∧
    data.blockpos_max.Y = data.blockpos_min.Y + params.chunksize.Y - 1 ∧
    data.blockpos_max.Z = data.blockpos_min.Z + params.chunksize.Z - 1
  full_bpmin : data.full_bpmin w =
    ⟨data.blockpos_min.X - 1, data.blockpos_min.Y - 1, data.blockpos_min.Z - 1⟩
  full_bpmax : data.full_bpmax w =
    ⟨data.blockpos_max.X + 1, data.blockpos_max.Y + 1, data.blockpos_max.Z + 1⟩

theorem mapgenLimit_le (w : PosWidth) (params : MapgenParams) :
    mapgenLimit w params * 16 ≤ 2 ^ (w.bits - 1) := by
  unfold mapgenLimit MAP_BLOCKSIZE
  rw [Int.tdiv_eq_ediv_of_nonneg (by omega)]
  cases w <;> simp only [PosWidth.bits, maxMapGenerationLimit] <;> omega

theorem placed_of_inside {blockpos : V3}
    (h : ServerMap.Inside w params (ServerMap.chunkOf w params blockpos)) :
    Placed w params (ServerMap.chunkOf w params blockpos) := by
  unfold ServerMap.Inside blockpos_over_mapgen_limit at h
  simp only [not_or, not_lt] at h
  obtain ⟨⟨hX, hX', hY, hY', hZ, hZ'⟩, -⟩ := h
  have hlimit := mapgenLimit_le w params
  obtain ⟨hX1, hX2, hX3, hX4⟩ :=
    containingChunk_inside params.chunksize_ge.1 params.chunksize_le.1 hlimit hX hX'
  obtain ⟨hY1, hY2, hY3, hY4⟩ :=
    containingChunk_inside params.chunksize_ge.2.1 params.chunksize_le.2.1 hlimit hY hY'
  obtain ⟨hZ1, hZ2, hZ3, hZ4⟩ :=
    containingChunk_inside params.chunksize_ge.2.2 params.chunksize_le.2.2 hlimit hZ hZ'
  exact
    { grid := ⟨hX1, hY1, hZ1⟩
      size := ⟨hX2, hY2, hZ2⟩
      full_bpmin := V3.mk.injEq .. |>.mpr ⟨hX3, hY3, hZ3⟩
      full_bpmax := V3.mk.injEq .. |>.mpr ⟨hX4, hY4, hZ4⟩ }

/-- Two chunks with a block in common are one. -/
theorem Placed.eq_of_covers {data data' : BlockMakeData} (h : Placed w params data)
    (h' : Placed w params data') {p : V3} (hp : data.Covers 0 p) (hp' : data'.Covers 0 p) :
    data.blockpos_min = data'.blockpos_min := by
  obtain ⟨⟨kx, hx⟩, ⟨ky, hy⟩, ⟨kz, hz⟩⟩ := h.grid
  obtain ⟨⟨kx', hx'⟩, ⟨ky', hy'⟩, ⟨kz', hz'⟩⟩ := h'.grid
  obtain ⟨sx, sy, sz⟩ := h.size
  obtain ⟨sx', sy', sz'⟩ := h'.size
  unfold BlockMakeData.Covers at hp hp'
  have hX := grid_eq (d := params.chunksize.X) (o := (-params.chunksize.X).tdiv 2) (k := kx)
    (l := kx') (x := p.X) (by omega) (by omega)
  have hY := grid_eq (d := params.chunksize.Y) (o := (-params.chunksize.Y).tdiv 2) (k := ky)
    (l := ky') (x := p.Y) (by omega) (by omega)
  have hZ := grid_eq (d := params.chunksize.Z) (o := (-params.chunksize.Z).tdiv 2) (k := kz)
    (l := kz') (x := p.Z) (by omega) (by omega)
  rw [← hx, ← hx'] at hX
  rw [← hy, ← hy'] at hY
  rw [← hz, ← hz'] at hZ
  cases hmin : data.blockpos_min
  cases hmin' : data'.blockpos_min
  rw [hmin, hmin'] at hX hY hZ
  exact V3.mk.injEq .. |>.mpr ⟨hX, hY, hZ⟩

/-! ## Regions -/

@[simp] theorem mem_intRange {lo hi x : ℤ} : x ∈ intRange lo hi ↔ lo ≤ x ∧ x ≤ hi := by
  unfold intRange
  rw [List.mem_map]
  constructor
  · intro ⟨n, hn, hx⟩
    rw [List.mem_range] at hn
    omega
  · intro h
    exact ⟨(x - lo).toNat, List.mem_range.mpr (by omega), by omega⟩

theorem nodup_intRange (lo hi : ℤ) : (intRange lo hi).Nodup :=
  List.Nodup.map (fun a b h => by simpa using h) List.nodup_range

theorem mem_region {lo hi p : V3} :
    p ∈ region lo hi ↔ (lo.X ≤ p.X ∧ p.X ≤ hi.X) ∧ (lo.Y ≤ p.Y ∧ p.Y ≤ hi.Y) ∧
      (lo.Z ≤ p.Z ∧ p.Z ≤ hi.Z) := by
  unfold region
  simp only [List.mem_flatMap, List.mem_map, mem_intRange]
  constructor
  · intro ⟨x, hx, z, hz, y, hy, hp⟩
    subst hp
    exact ⟨hx, hy, hz⟩
  · intro ⟨hx, hy, hz⟩
    exact ⟨p.X, hx, p.Z, hz, p.Y, hy, rfl⟩

theorem nodup_region (lo hi : V3) : (region lo hi).Nodup := by
  unfold region
  refine List.nodup_flatMap.mpr ⟨fun x _ => List.nodup_flatMap.mpr ⟨fun z _ => ?_, ?_⟩, ?_⟩
  · refine (nodup_intRange _ _).map fun y y' h => ?_
    injection h
  · refine (nodup_intRange _ _).imp fun {z z'} hne p hp hp' => hne ?_
    obtain ⟨y, -, rfl⟩ := List.mem_map.mp hp
    obtain ⟨y', -, heq⟩ := List.mem_map.mp hp'
    injection heq with _ _ hz
    exact hz.symm
  · refine (nodup_intRange _ _).imp fun {x x'} hne p hp hp' => hne ?_
    obtain ⟨z, -, hp⟩ := List.mem_flatMap.mp hp
    obtain ⟨y, -, rfl⟩ := List.mem_map.mp hp
    obtain ⟨z', -, hp'⟩ := List.mem_flatMap.mp hp'
    obtain ⟨y', -, heq⟩ := List.mem_map.mp hp'
    injection heq with hx _ _
    exact hx.symm

theorem Placed.mem_fullRegion {data : BlockMakeData} (h : Placed w params data) {p : V3} :
    p ∈ data.fullRegion w ↔ data.Covers 1 p := by
  unfold BlockMakeData.fullRegion
  rw [mem_region, h.full_bpmin, h.full_bpmax]
  rfl

/-! ## Reference counts -/

variable {blocks : RefCounts} {ps : List V3} {p q : V3}

theorem lookup_emergeAndGrab (blocks : RefCounts) (p q : V3) :
    ((emergeAndGrab blocks p).lookup q).getD 0 =
      (blocks.lookup q).getD 0 + if q = p then 1 else 0 := by
  unfold emergeAndGrab
  by_cases h : q = p
  · subst h
    rw [Finmap.lookup_insert]
    simp
  · rw [Finmap.lookup_insert_of_ne _ h]
    simp [h]

theorem lookup_refDrop (hp : (blocks.lookup p).isSome) (q : V3) :
    ((refDrop blocks p).lookup q).getD 0 =
        (blocks.lookup q).getD 0 - (if q = p then 1 else 0) ∧
      ((refDrop blocks p).lookup q).isSome = (blocks.lookup q).isSome := by
  obtain ⟨refcount, hcount⟩ := Option.isSome_iff_exists.mp hp
  unfold refDrop
  rw [hcount]
  dsimp only
  by_cases h : q = p
  · subst h
    rw [Finmap.lookup_insert, hcount]
    simp
  · rw [Finmap.lookup_insert_of_ne _ h]
    simp [h]

theorem lookup_foldl_emergeAndGrab (h : ps.Nodup) (blocks : RefCounts) (q : V3) :
    ((ps.foldl emergeAndGrab blocks).lookup q).getD 0 =
      (blocks.lookup q).getD 0 + if q ∈ ps then 1 else 0 := by
  induction ps generalizing blocks with
  | nil => simp
  | cons p ps ih =>
    obtain ⟨hp, hps⟩ := List.nodup_cons.mp h
    rw [List.foldl_cons, ih hps, lookup_emergeAndGrab]
    by_cases hq : q = p
    · subst hq
      simp [hp]
    · simp [hq]

/-- Blocks that are in memory are all dropped once. -/
theorem lookup_foldl_refDrop (h : ps.Nodup) (blocks : RefCounts)
    (hloaded : ∀ p ∈ ps, (blocks.lookup p).isSome) (q : V3) :
    ((ps.foldl refDrop blocks).lookup q).getD 0 =
      (blocks.lookup q).getD 0 - if q ∈ ps then 1 else 0 := by
  induction ps generalizing blocks with
  | nil => simp
  | cons p ps ih =>
    obtain ⟨hp, hps⟩ := List.nodup_cons.mp h
    have hdrop := lookup_refDrop (hloaded p List.mem_cons_self)
    have hloaded' : ∀ p' ∈ ps, ((refDrop blocks p).lookup p').isSome := by
      intro p' hp'
      rw [(hdrop p').2]
      exact hloaded p' (List.mem_cons_of_mem _ hp')
    rw [List.foldl_cons, ih hps _ hloaded', (hdrop q).1]
    by_cases hq : q = p
    · subst hq
      simp [hp]
    · simp [hq]

/-! ## Runs -/

namespace Generating

variable {s s' : Generating} {op : MakeOp}

/-- The invariant of runs that leave no reservation behind. -/
structure Reserved (w : PosWidth) (params : MapgenParams) (s : Generating) : Prop where
  in_progress : ∀ c, c ∈ s.map.m_chunks_in_progress ↔ c ∈ s.begun.map (·.blockpos_min)
  process : ∀ c, c ∈ s.map.m_mapgen_process ↔ c ∈ s.begun.map (·.blockpos_min)
  once : (s.begun.map (·.blockpos_min)).Nodup
  placed : ∀ data ∈ s.begun, Placed w params data
  refcount : ∀ p, (s.map.blocks.lookup p).getD 0 = s.begun.countP fun data => data.Covers 1 p

/-- An init whose chunk is in progress changes nothing; one inside the limits succeeds. -/
theorem Reserved.initBlockMake (h : s.Reserved w params) (blockpos : V3) (now : UInt64) :
    let data := ServerMap.chunkOf w params blockpos
    (data.blockpos_min ∈ s.begun.map (·.blockpos_min) →
      s.map.initBlockMake w params blockpos now = (s.map, none)) ∧
    (data.blockpos_min ∉ s.begun.map (·.blockpos_min) → ServerMap.Inside w params data →
      s.map.initBlockMake w params blockpos now =
        ({ m_chunks_in_progress := insert data.blockpos_min s.map.m_chunks_in_progress
           m_mapgen_process := s.map.m_mapgen_process.insert data.blockpos_min now.toUInt32
           blocks := (data.fullRegion w).foldl emergeAndGrab s.map.blocks }, some data)) := by
  dsimp only
  unfold ServerMap.initBlockMake
  dsimp only
  constructor
  · intro hbegun
    rw [if_pos ((h.in_progress _).mpr hbegun)]
  · intro hbegun hinside
    have hnot := mt (h.in_progress _).mp hbegun
    have hprocess := mt (h.process _).mp hbegun
    rw [if_neg hnot, Finmap.lookup_eq_none.mpr hprocess, if_neg, if_neg (not_not.mpr hinside)]
    exact UInt64.not_lt.mpr UInt64.zero_le

theorem Reserved.exact (h : s.Reserved w params) : s.Exact w params where
  in_progress c := by rw [h.in_progress, List.mem_map]
  process c := by rw [h.process, List.mem_map]
  disjoint := by
    refine (List.pairwise_map.mp h.once).imp_of_mem fun {data data'} hmem hmem' hne p hp => hne ?_
    exact (h.placed data hmem).eq_of_covers (h.placed data' hmem') hp.1 hp.2
  refcount := h.refcount
  free blockpos now hinside hnot := by
    have hbegun : (ServerMap.chunkOf w params blockpos).blockpos_min ∉
        s.begun.map (·.blockpos_min) := by
      intro hmem
      obtain ⟨data, hdata, heq⟩ := List.mem_map.mp hmem
      exact hnot data hdata heq
    rw [(h.initBlockMake blockpos now).2 hbegun hinside]

theorem Reserved.finishBlockMake (h : s.Reserved w params) {i : ℕ} {data : BlockMakeData}
    (hi : s.begun[i]? = some data) :
    Reserved w params
      { map := s.map.finishBlockMake w data, begun := s.begun.eraseIdx i } := by
  obtain ⟨hlt, hget⟩ := List.getElem?_eq_some_iff.mp hi
  have hperm : (data :: s.begun.eraseIdx i).Perm s.begun := by
    rw [← hget]
    exact List.getElem_cons_eraseIdx_perm hlt
  have honce := (hperm.map (·.blockpos_min)).nodup_iff.mpr h.once
  rw [List.map_cons, List.nodup_cons] at honce
  have hmem : ∀ c, c ∈ s.begun.map (·.blockpos_min) ↔
      c = data.blockpos_min ∨ c ∈ (s.begun.eraseIdx i).map (·.blockpos_min) := by
    intro c
    rw [← (hperm.map (·.blockpos_min)).mem_iff, List.map_cons, List.mem_cons]
  have hdata : data ∈ s.begun := List.mem_of_getElem? hi
  have hplaced := h.placed data hdata
  refine ⟨fun c => ?_, fun c => ?_, honce.2, fun d hd => ?_, fun p => ?_⟩
  · unfold ServerMap.finishBlockMake
    rw [Finset.mem_erase, h.in_progress, hmem]
    constructor
    · intro ⟨hne, hor⟩
      exact hor.resolve_left hne
    · intro hc
      exact ⟨fun heq => honce.1 (heq ▸ hc), .inr hc⟩
  · unfold ServerMap.finishBlockMake
    rw [Finmap.mem_erase, h.process, hmem]
    constructor
    · intro ⟨hne, hor⟩
      exact hor.resolve_left hne
    · intro hc
      exact ⟨fun heq => honce.1 (heq ▸ hc), .inr hc⟩
  · exact h.placed d (List.mem_of_mem_eraseIdx hd)
  · have hloaded : ∀ q ∈ data.fullRegion w, (s.map.blocks.lookup q).isSome := by
      intro q hq
      have hcount := h.refcount q
      have hpos : 0 < s.begun.countP fun data => data.Covers 1 q :=
        List.countP_pos_iff.mpr ⟨data, hdata, decide_eq_true (hplaced.mem_fullRegion.mp hq)⟩
      cases hlookup : s.map.blocks.lookup q with
      | none =>
        rw [hlookup, Option.getD_none] at hcount
        omega
      | some refcount => rfl
    have hnodup : (data.fullRegion w).Nodup := nodup_region _ _
    unfold ServerMap.finishBlockMake
    dsimp only
    rw [lookup_foldl_refDrop hnodup _ hloaded, h.refcount, ← hperm.countP_eq,
      List.countP_cons]
    simp only [hplaced.mem_fullRegion, decide_eq_true_eq]
    split_ifs <;> omega

theorem Reserved.step (h : s.Reserved w params) (hok : s.Released w params op)
    (hstep : s.step w params op = some s') : s'.Reserved w params := by
  cases op with
  | init blockpos now =>
    simp only [Generating.step, Option.some.injEq] at hstep
    subst hstep
    obtain ⟨hbusy, hfree⟩ := h.initBlockMake blockpos now
    by_cases hbegun : (ServerMap.chunkOf w params blockpos).blockpos_min ∈
        s.begun.map (·.blockpos_min)
    · rw [hbusy hbegun]
      exact h
    · have hinside := hok.resolve_right fun hmem => hbegun ((h.in_progress _).mp hmem)
      rw [hfree hbegun hinside]
      have hplaced := placed_of_inside hinside
      refine ⟨fun c => ?_, fun c => ?_, ?_, fun d hd => ?_, fun p => ?_⟩
      · simp [h.in_progress]
      · rw [Finmap.mem_insert, h.process]
        simp
      · exact List.nodup_cons.mpr ⟨hbegun, h.once⟩
      · cases hd with
        | head => exact hplaced
        | tail _ hd => exact h.placed d hd
      · have hnodup : ((ServerMap.chunkOf w params blockpos).fullRegion w).Nodup := nodup_region _ _
        dsimp only
        rw [lookup_foldl_emergeAndGrab hnodup, h.refcount, Option.toList_some,
          List.singleton_append, List.countP_cons]
        simp only [← hplaced.mem_fullRegion, decide_eq_true_eq]
        push_cast
        rfl
  | finish i =>
    obtain ⟨data, hi, rfl⟩ := Option.map_eq_some_iff.mp hstep
    exact h.finishBlockMake hi
  | cancel i => exact hok.elim
  | load p =>
    simp only [Generating.step] at hstep
    split_ifs at hstep with hnone
    injection hstep with hstep
    subst hstep
    refine { h with refcount := fun q => ?_ }
    rw [← h.refcount q]
    by_cases hq : q = p
    · subst hq
      rw [Finmap.lookup_insert, hnone]
      rfl
    · rw [Finmap.lookup_insert_of_ne _ hq]
  | unload p =>
    simp only [Generating.step] at hstep
    split_ifs at hstep with hzero
    injection hstep with hstep
    subst hstep
    refine { h with refcount := fun q => ?_ }
    rw [← h.refcount q]
    by_cases hq : q = p
    · subst hq
      rw [Finmap.lookup_erase, hzero]
      rfl
    · rw [Finmap.lookup_erase_ne hq]

theorem exact_run (h : (system w params).Run (Released w params) s) : s.Exact w params := by
  refine Reserved.exact (h.invariant (fun s h0 => ?_) fun s op s' h hok hs => h.step hok hs)
  have h0 : s = {} := h0
  subst h0
  exact
    { in_progress := fun c => by simp
      process := fun c => by simp [Finmap.notMem_empty]
      once := List.nodup_nil
      placed := fun data hdata => by cases hdata
      refcount := fun p => by simp }

/-- Chunks of one block, in a world of thirteen blocks in each direction. -/
def smallParams : MapgenParams where
  chunksize := ⟨1, 1, 1⟩
  mapgen_limit := 100
  chunksize_ge := by decide
  chunksize_le := by decide

def runSmall (ok : Generating → MakeOp → Prop) [∀ s op, Decidable (ok s op)] (ops : List MakeOp) :
    Option Generating :=
  Lts.execAll (fun op s => s.step .pos16 smallParams op) ok ops {}

theorem run_runSmall {ok : Generating → MakeOp → Prop} [∀ s op, Decidable (ok s op)]
    {ops : List MakeOp} {s : Generating} (h : runSmall ok ops = some s) :
    (system .pos16 smallParams).Run ok s :=
  Lts.Run.execAll _ _ (fun _ _ _ hs => hs) (.init rfl) h

/-- A chunk is generated again beside another one. -/
theorem exact_run_again : ∃ s : Generating,
    s.begun.map (·.blockpos_min) = [⟨0, 0, 0⟩, ⟨0, 1, 0⟩] ∧ s.Exact .pos16 smallParams := by
  have hrun : (runSmall (Released .pos16 smallParams) [.init ⟨0, 0, 0⟩ 70000,
      .init ⟨0, 0, 0⟩ 70001, .finish 0, .init ⟨0, 1, 0⟩ 70002, .init ⟨0, 0, 0⟩ 70003]).map
        (fun s => s.begun.map (·.blockpos_min)) = some [⟨0, 0, 0⟩, ⟨0, 1, 0⟩] := by
    decide +kernel
  obtain ⟨s, hs, hbegun⟩ := Option.map_eq_some_iff.mp hrun
  exact ⟨s, hbegun, exact_run (run_runSmall hs)⟩

/-- A chunk refused at the limits stays reserved, as does one that was cancelled. -/
theorem not_exact_run :
    (¬∀ s : Generating, (system .pos16 smallParams).Reach s → s.Exact .pos16 smallParams) ∧
      ∃ s : Generating, (system .pos16 smallParams).Reach s ∧ s.begun = [] ∧
        (s.map.initBlockMake .pos16 smallParams ⟨0, 0, 0⟩ 1000000).2 = none := by
  constructor
  · intro h
    have hrun : (runSmall (fun _ _ => True) [.init ⟨50, 0, 0⟩ 70000]).map
        (fun s => (s.map.m_chunks_in_progress, s.begun)) = some ({⟨50, 0, 0⟩}, []) := by
      decide +kernel
    obtain ⟨s, hs, heq⟩ := Option.map_eq_some_iff.mp hrun
    injection heq with hprogress hbegun
    have hmem : (⟨50, 0, 0⟩ : V3) ∈ s.map.m_chunks_in_progress := by
      rw [hprogress]
      exact Finset.mem_singleton_self _
    obtain ⟨data, hdata, -⟩ := ((h s (run_runSmall hs)).in_progress _).mp hmem
    rw [hbegun] at hdata
    cases hdata
  · have hrun : (runSmall (fun _ _ => True) [.init ⟨0, 0, 0⟩ 70000, .cancel 0]).map
        (fun s => (s.begun, (s.map.initBlockMake .pos16 smallParams ⟨0, 0, 0⟩ 1000000).2)) =
          some ([], none) := by
      decide +kernel
    obtain ⟨s, hs, heq⟩ := Option.map_eq_some_iff.mp hrun
    injection heq with hbegun hinit
    exact ⟨s, run_runSmall hs, hbegun, hinit⟩

end Generating

end Freeminer.Server
