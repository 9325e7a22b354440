import Freeminer.Mtp.Split

/-! Reassembly: the chunks of one payload, in any order and among other packets, come out of
`IncomingSplitBuffer` as that payload when the last of them arrives, and not before. -/

namespace Freeminer.Mtp

section Chunk

variable (address : Address) (protocolId : UInt32) (sender : SessionT) (channel : UInt8)
  (seqnum chunkCount chunkNum : UInt16) (d : SharedBuffer)

theorem readU16_splitChunk_seqnum :
    readU16 ((splitChunk seqnum chunkCount chunkNum d).drop 1) = seqnum := by
  simp only [splitChunk, List.cons_append, List.append_assoc, List.drop_succ_cons, List.drop_zero,
    readU16_writeU16]

theorem readU16_splitChunk_count :
    readU16 ((splitChunk seqnum chunkCount chunkNum d).drop 3) = chunkCount :=
  readU16_writeU16 chunkCount (writeU16 chunkNum ++ d)

theorem readU16_splitChunk_num :
    readU16 ((splitChunk seqnum chunkCount chunkNum d).drop 5) = chunkNum :=
  readU16_writeU16 chunkNum d

theorem toUInt32_lt {a b : UInt16} (h : a < b) : a.toUInt32 < b.toUInt32 := by
  rw [UInt32.lt_iff_toNat_lt, UInt16.toNat_toUInt32, UInt16.toNat_toUInt32]
  exact UInt16.lt_iff_toNat_lt.mp h

theorem length_splitChunk : (splitChunk seqnum chunkCount chunkNum d).length = 7 + d.length := by
  simp [splitChunk, writeU16]
  omega

end Chunk

/-! ## One split packet -/

namespace IncomingSplitPacket

/-- The pieces whose numbers are in `K` have been received, and nothing else. -/
structure Collected (sp : IncomingSplitPacket) (pieces : List SharedBuffer) (K : Finset ℕ) :
    Prop where
  count : sp.chunkCount = (UInt16.ofNat pieces.length).toUInt32
  lookup (k : UInt16) :
    sp.chunks.lookup k = if k.toNat ∈ K then pieces[k.toNat]? else none

variable {sp : IncomingSplitPacket} {pieces : List SharedBuffer} {K : Finset ℕ} {k : ℕ}

theorem Collected.empty (pieces : List SharedBuffer) (reliable : Bool) :
    Collected { chunkCount := (UInt16.ofNat pieces.length).toUInt32, reliable } pieces ∅ where
  count := rfl
  lookup k := by simp

theorem Collected.toNat_count (h : sp.Collected pieces K) (hn : pieces.length ≤ 0xFFFF) :
    sp.chunkCount.toNat = pieces.length := by
  rw [h.count, UInt16.toNat_toUInt32, UInt16.toNat_ofNat']
  omega

theorem Collected.mem_chunks (h : sp.Collected pieces K) (hK : K ⊆ Finset.range pieces.length)
    (k : UInt16) : k ∈ sp.chunks ↔ k.toNat ∈ K := by
  rw [← Finmap.lookup_isSome, h.lookup]
  split_ifs with hk
  · have := Finset.mem_range.mp (hK hk)
    simp [hk, this]
  · simp [hk]

theorem Collected.card_keys (h : sp.Collected pieces K) (hn : pieces.length ≤ 0xFFFF)
    (hK : K ⊆ Finset.range pieces.length) : sp.chunks.keys.card = K.card := by
  have himage : sp.chunks.keys.image UInt16.toNat = K := by
    ext k
    simp only [Finset.mem_image, Finmap.mem_keys, h.mem_chunks hK]
    constructor
    · rintro ⟨_, hx, rfl⟩
      exact hx
    · intro hk
      have hkn := Finset.mem_range.mp (hK hk)
      have hto : (UInt16.ofNat k).toNat = k := by
        rw [UInt16.toNat_ofNat']
        omega
      exact ⟨UInt16.ofNat k, by rwa [hto], hto⟩
  rw [← himage, Finset.card_image_of_injective _ fun _ _ => UInt16.toNat_inj.mp]

theorem Collected.allReceived_iff (h : sp.Collected pieces K) (hn : pieces.length ≤ 0xFFFF)
    (hK : K ⊆ Finset.range pieces.length) :
    sp.allReceived = true ↔ K = Finset.range pieces.length := by
  rw [allReceived, decide_eq_true_eq, h.card_keys hn hK, h.toNat_count hn]
  constructor
  · intro hcard
    exact Finset.eq_of_subset_of_card_le hK (by rw [Finset.card_range, hcard])
  · rintro rfl
    exact Finset.card_range _

theorem Collected.insert_old (h : sp.Collected pieces K) (hn : pieces.length ≤ 0xFFFF)
    (hK : K ⊆ Finset.range pieces.length) (hk : k ∈ K) (d : SharedBuffer) :
    sp.insert (UInt16.ofNat k).toUInt32 d = .ok (false, sp) := by
  have hkn := Finset.mem_range.mp (hK hk)
  have hto : (UInt16.ofNat k).toNat = k := by
    rw [UInt16.toNat_ofNat']
    omega
  rw [insert, if_neg, if_pos]
  · rw [UInt16.toUInt16_toUInt32, h.mem_chunks hK, hto]
    exact hk
  · rw [not_not, UInt32.lt_iff_toNat_lt, h.toNat_count hn, UInt16.toNat_toUInt32, hto]
    exact hkn

theorem Collected.insert_new (h : sp.Collected pieces K) (hn : pieces.length ≤ 0xFFFF)
    (hK : K ⊆ Finset.range pieces.length) (hkn : k < pieces.length) (hk : k ∉ K) :
    ∃ sp', sp.insert (UInt16.ofNat k).toUInt32 pieces[k] = .ok (true, sp') ∧
      sp'.Collected pieces (Insert.insert k K) := by
  have hto : (UInt16.ofNat k).toNat = k := by
    rw [UInt16.toNat_ofNat']
    omega
  refine ⟨{ sp with chunks := sp.chunks.insert (UInt16.ofNat k) pieces[k] }, ?_, h.count, ?_⟩
  · rw [insert, if_neg, if_neg, UInt16.toUInt16_toUInt32]
    · rw [UInt16.toUInt16_toUInt32, h.mem_chunks hK, hto]
      exact hk
    · rw [not_not, UInt32.lt_iff_toNat_lt, h.toNat_count hn, UInt16.toNat_toUInt32, hto]
      exact hkn
  · intro j
    by_cases hj : j = UInt16.ofNat k
    · subst hj
      rw [Finmap.lookup_insert, hto, if_pos (Finset.mem_insert_self _ _),
        List.getElem?_eq_getElem hkn]
    · have hjk : j.toNat ≠ k := by
        rintro rfl
        exact hj (by simp)
      rw [Finmap.lookup_insert_of_ne _ hj, h.lookup]
      simp [hjk]

theorem Collected.reassemble (h : sp.Collected pieces (Finset.range pieces.length))
    (hn : pieces.length ≤ 0xFFFF) : sp.reassemble = .ok pieces.flatten := by
  have hall := (h.allReceived_iff hn subset_rfl).mpr rfl
  rw [IncomingSplitPacket.reassemble, hall, Bool.not_true, if_neg Bool.false_ne_true,
    h.toNat_count hn, List.flatMap_def]
  congr 2
  apply List.ext_getElem (by simp)
  intro i h1 h2
  have hto : (UInt16.ofNat i).toNat = i := by
    rw [UInt16.toNat_ofNat']
    omega
  simp only [List.getElem_map, List.getElem_range, h.lookup, hto, Finset.mem_range, h2, if_true,
    List.getElem?_eq_getElem, Option.getD_some]

theorem insert_total {chunkNum : UInt32} (h : chunkNum < sp.chunkCount) (d : SharedBuffer) :
    ∃ new sp', sp.insert chunkNum d = .ok (new, sp') := by
  rw [insert, if_neg (not_not.mpr h)]
  split_ifs
  · exact ⟨_, _, rfl⟩
  · exact ⟨_, _, rfl⟩

theorem reassemble_total (h : sp.allReceived = true) : ∃ d, sp.reassemble = .ok d :=
  ⟨_, by rw [IncomingSplitPacket.reassemble, h]; rfl⟩

end IncomingSplitPacket

/-! ## The buffer -/

def splitSeqnum (p : BufferedPacket) : UInt16 := readU16 (p.data.drop (BASE_HEADER_SIZE + 1))

/-- The datagram `p` carries the `k`th chunk. -/
def Carries (chunks : List SharedBuffer) (k : ℕ) (p : BufferedPacket) : Prop :=
  ∃ (address : Address) (protocolId : UInt32) (sender : SessionT) (channel : UInt8)
    (h : k < chunks.length), p = makePacket address chunks[k] protocolId sender channel

namespace IncomingSplitBuffer

open IncomingSplitPacket

/-- Of the split packet `seqnum` the buffer holds the pieces in `K`. -/
def Holds (buf : IncomingSplitBuffer) (seqnum : UInt16) (pieces : List SharedBuffer)
    (K : Finset ℕ) : Prop :=
  buf.lookup seqnum = none ∧ K = ∅ ∨ ∃ sp, buf.lookup seqnum = some sp ∧ sp.Collected pieces K

variable {buf : IncomingSplitBuffer} {seqnum : UInt16} {pieces : List SharedBuffer}
  {K : Finset ℕ} {k : ℕ} {p : BufferedPacket}

theorem insertChunk_of_insert {sp sp' : IncomingSplitPacket} {chunkNum : UInt32}
    {d : SharedBuffer} {new : Bool} (h : sp.insert chunkNum d = .ok (new, sp')) :
    buf.insertChunk seqnum sp chunkNum d =
      if !new then .ok ([], Finmap.insert seqnum sp' buf)
      else if !sp'.allReceived then .ok ([], Finmap.insert seqnum sp' buf)
      else sp'.reassemble.map fun fulldata =>
        (fulldata, Finmap.erase seqnum (Finmap.insert seqnum sp' buf)) := by
  rw [insertChunk, h]
  rfl

theorem insert_of_header {count num : UInt16} {d : SharedBuffer} {reliable : Bool}
    (hsize : BASE_HEADER_SIZE + 7 ≤ p.size)
    (htype : readU8 (p.data.drop BASE_HEADER_SIZE) = PACKET_TYPE_SPLIT)
    (hseqnum : splitSeqnum p = seqnum)
    (hcount : readU16 (p.data.drop (BASE_HEADER_SIZE + 3)) = count)
    (hnum : readU16 (p.data.drop (BASE_HEADER_SIZE + 5)) = num)
    (hd : p.data.drop (BASE_HEADER_SIZE + 7) = d) :
    buf.insert p reliable =
      if num < count then
        if count.toUInt32 = ((buf.lookup seqnum).getD
            { chunkCount := count.toUInt32, reliable }).chunkCount then
          buf.insertChunk seqnum ((buf.lookup seqnum).getD
            { chunkCount := count.toUInt32, reliable }) num.toUInt32 d
        else .ok ([], Finmap.insert seqnum ((buf.lookup seqnum).getD
            { chunkCount := count.toUInt32, reliable }) buf)
      else .ok ([], buf) := by
  subst hseqnum hcount hnum hd
  simp only [insert, not_lt.mpr hsize, if_false, htype, ne_eq, not_true_eq_false, ite_not]
  rfl

variable (buf) in
/-- A packet with another split sequence number leaves the entry alone. -/
theorem insert_other (h : splitSeqnum p ≠ seqnum) (reliable : Bool) :
    ∃ r buf', buf.insert p reliable = .ok (r, buf') ∧ buf'.lookup seqnum = buf.lookup seqnum := by
  have hkeep : ∀ sp, (Finmap.insert (splitSeqnum p) sp buf).lookup seqnum = buf.lookup seqnum :=
    fun sp => Finmap.lookup_insert_of_ne _ h.symm
  by_cases h1 : p.size < BASE_HEADER_SIZE + 7
  · exact ⟨[], buf, by rw [insert, if_pos h1], rfl⟩
  by_cases h2 : readU8 (p.data.drop BASE_HEADER_SIZE) = PACKET_TYPE_SPLIT
  swap
  · exact ⟨[], buf, by simp only [insert, h1, h2, if_false, ne_eq, not_false_eq_true, if_true], rfl⟩
  obtain ⟨count, hcount⟩ : ∃ c, readU16 (p.data.drop (BASE_HEADER_SIZE + 3)) = c := ⟨_, rfl⟩
  obtain ⟨num, hnum⟩ : ∃ c, readU16 (p.data.drop (BASE_HEADER_SIZE + 5)) = c := ⟨_, rfl⟩
  rw [insert_of_header (not_lt.mp h1) h2 rfl hcount hnum rfl]
  split_ifs with h3 h4
  · obtain ⟨new, sp', hsp⟩ := insert_total (h4 ▸ toUInt32_lt h3) (p.data.drop (BASE_HEADER_SIZE + 7))
    rw [insertChunk_of_insert hsp]
    split_ifs with h5 h6
    · exact ⟨_, _, rfl, hkeep _⟩
    · exact ⟨_, _, rfl, hkeep _⟩
    · obtain ⟨d, hd⟩ := sp'.reassemble_total (by simpa using h6)
      refine ⟨_, _, by rw [hd]; rfl, ?_⟩
      rw [Finmap.lookup_erase_ne h.symm, hkeep]
  · exact ⟨_, _, rfl, hkeep _⟩
  · exact ⟨_, _, rfl, rfl⟩

/-- The checks of the functions that `insert` calls never fail. -/
theorem insert_total (buf : IncomingSplitBuffer) (p : BufferedPacket) (reliable : Bool) :
    ∃ r, buf.insert p reliable = .ok r := by
  have hne : splitSeqnum p ≠ splitSeqnum p + 1 := by
    intro h
    have := congrArg UInt16.toNat h
    simp only [UInt16.toNat_add, UInt16.toNat_one] at this
    have := (splitSeqnum p).toNat_lt
    omega
  obtain ⟨r, buf', h, -⟩ := insert_other buf hne reliable
  exact ⟨(r, buf'), h⟩

/-- What `insert` does with a chunk of the payload. -/
theorem insert_chunk (hn : pieces.length ≤ 0xFFFF) (h : buf.Holds seqnum pieces K)
    (hK : K ⊆ Finset.range pieces.length) (hne : K ≠ Finset.range pieces.length)
    (hp : Carries (numberedChunks seqnum (UInt16.ofNat pieces.length) 0 pieces) k p)
    (reliable : Bool) :
    (Insert.insert k K ≠ Finset.range pieces.length ∧
      ∃ buf', buf.insert p reliable = .ok ([], buf') ∧
        buf'.Holds seqnum pieces (Insert.insert k K)) ∨
    (Insert.insert k K = Finset.range pieces.length ∧
      ∃ buf', buf.insert p reliable = .ok (pieces.flatten, buf') ∧
        buf'.lookup seqnum = none) := by
  obtain ⟨address, protocolId, sender, channel, hk, rfl⟩ := hp
  have hkn : k < pieces.length := by simpa [numberedChunks] using hk
  have hchunk : (numberedChunks seqnum (UInt16.ofNat pieces.length) 0 pieces)[k] =
      splitChunk seqnum (UInt16.ofNat pieces.length) (UInt16.ofNat k) pieces[k] := by
    simp [numberedChunks]
  have hlt : UInt16.ofNat k < UInt16.ofNat pieces.length := by
    rw [UInt16.lt_iff_toNat_lt, UInt16.toNat_ofNat', UInt16.toNat_ofNat']
    omega
  rw [hchunk]
  obtain ⟨sp, hsp, hcol⟩ : ∃ sp, (buf.lookup seqnum).getD
      { chunkCount := (UInt16.ofNat pieces.length).toUInt32, reliable } = sp ∧
      sp.Collected pieces K := by
    rcases h with ⟨h0, rfl⟩ | ⟨sp, h0, hcol⟩
    · exact ⟨_, by rw [h0]; rfl, Collected.empty pieces reliable⟩
    · exact ⟨sp, by rw [h0]; rfl, hcol⟩
  have hins : (makePacket address (splitChunk seqnum (UInt16.ofNat pieces.length)
      (UInt16.ofNat k) pieces[k]) protocolId sender channel |> buf.insert) reliable =
      buf.insertChunk seqnum sp (UInt16.ofNat k).toUInt32 pieces[k] := by
    have hheader := @insert_of_header buf seqnum (makePacket address (splitChunk seqnum
      (UInt16.ofNat pieces.length) (UInt16.ofNat k) pieces[k]) protocolId sender channel)
      (UInt16.ofNat pieces.length) (UInt16.ofNat k) pieces[k] reliable ?_ ?_ ?_ ?_ ?_ ?_
    · rw [if_pos hlt, hsp, if_pos hcol.count.symm] at hheader
      exact hheader
    · rw [size_makePacket, length_splitChunk]
      omega
    · rw [drop_makePacket]
      rfl
    · rw [splitSeqnum, drop_makePacket_add, readU16_splitChunk_seqnum]
    · rw [drop_makePacket_add, readU16_splitChunk_count]
    · rw [drop_makePacket_add, readU16_splitChunk_num]
    · rw [drop_makePacket_add]
      rfl
  rw [hins]
  by_cases hkK : k ∈ K
  · rw [Finset.insert_eq_of_mem hkK, insertChunk_of_insert (hcol.insert_old hn hK hkK _)]
    exact .inl ⟨hne, _, rfl, .inr ⟨sp, Finmap.lookup_insert _, hcol⟩⟩
  · obtain ⟨sp', hsp', hcol'⟩ := hcol.insert_new hn hK hkn hkK
    have hK' : Insert.insert k K ⊆ Finset.range pieces.length :=
      Finset.insert_subset (Finset.mem_range.mpr hkn) hK
    have hall := hcol'.allReceived_iff hn hK'
    rw [insertChunk_of_insert hsp']
    by_cases hfull : Insert.insert k K = Finset.range pieces.length
    · right
      refine ⟨hfull, Finmap.erase seqnum (Finmap.insert seqnum sp' buf), ?_,
        Finmap.lookup_erase _ _⟩
      rw [hfull] at hcol'
      rw [hall.mpr hfull, hcol'.reassemble hn]
      rfl
    · left
      refine ⟨hfull, Finmap.insert seqnum sp' buf, ?_, .inr ⟨sp', Finmap.lookup_insert _, hcol'⟩⟩
      rw [show sp'.allReceived = false from Bool.eq_false_iff.mpr fun h => hfull (hall.mp h)]
      rfl

/-! ## Runs of insertions -/

theorem splitSeqnum_of_carries {count : UInt16}
    (hp : Carries (numberedChunks seqnum count 0 pieces) k p) : splitSeqnum p = seqnum := by
  obtain ⟨address, protocolId, sender, channel, hk, rfl⟩ := hp
  rw [splitSeqnum, drop_makePacket_add]
  simp only [numberedChunks, List.getElem_map, readU16_splitChunk_seqnum]

theorem carries_inj {count : UInt16} {j : ℕ} (hn : pieces.length ≤ 0xFFFF)
    (hk : Carries (numberedChunks seqnum count 0 pieces) k p)
    (hj : Carries (numberedChunks seqnum count 0 pieces) j p) : k = j := by
  have hnum : ∀ i, Carries (numberedChunks seqnum count 0 pieces) i p →
      i < pieces.length ∧ readU16 (p.data.drop (BASE_HEADER_SIZE + 5)) = UInt16.ofNat i := by
    rintro i ⟨address, protocolId, sender, channel, hi, rfl⟩
    rw [drop_makePacket_add]
    simp only [numberedChunks, List.getElem_map, readU16_splitChunk_num, List.getElem_zipIdx,
      Nat.zero_add, and_true]
    simpa [numberedChunks] using hi
  obtain ⟨hk, hk'⟩ := hnum k hk
  obtain ⟨hj, hj'⟩ := hnum j hj
  have := congrArg UInt16.toNat (hk'.symm.trans hj')
  simp only [UInt16.toNat_ofNat'] at this
  omega

/-- As long as chunk `m` is missing, the chunks of the payload return nothing. -/
theorem insertAll_missing {m : ℕ} (hn : pieces.length ≤ 0xFFFF) (hm : m < pieces.length)
    (arrivals : List (BufferedPacket × Bool))
    (harr : ∀ a ∈ arrivals, splitSeqnum a.1 = seqnum → ∃ k, k ≠ m ∧
      Carries (numberedChunks seqnum (UInt16.ofNat pieces.length) 0 pieces) k a.1)
    (h : buf.Holds seqnum pieces K) (hK : K ⊆ Finset.range pieces.length) (hmK : m ∉ K) :
    ∃ results buf' K', buf.insertAll arrivals = .ok (results, buf') ∧
      List.Forall₂ (fun a r => splitSeqnum a.1 = seqnum → r = []) arrivals results ∧
      buf'.Holds seqnum pieces K' ∧ K' ⊆ Finset.range pieces.length ∧ m ∉ K' ∧ K ⊆ K' ∧
      ∀ a ∈ arrivals, ∀ k,
        Carries (numberedChunks seqnum (UInt16.ofNat pieces.length) 0 pieces) k a.1 → k ∈ K' := by
  induction arrivals generalizing buf K with
  | nil => exact ⟨[], buf, K, rfl, .nil, h, hK, hmK, subset_rfl, by simp⟩
  | cons a arrivals ih =>
    obtain ⟨p, reliable⟩ := a
    obtain ⟨ha, harr⟩ := List.forall_mem_cons.mp harr
    obtain ⟨r, buf₁, K₁, hins, hr, h₁, hK₁, hmK₁, hsub, hmem⟩ : ∃ r buf₁ K₁,
        buf.insert p reliable = .ok (r, buf₁) ∧ (splitSeqnum p = seqnum → r = []) ∧
        buf₁.Holds seqnum pieces K₁ ∧ K₁ ⊆ Finset.range pieces.length ∧ m ∉ K₁ ∧ K ⊆ K₁ ∧
        ∀ k, Carries (numberedChunks seqnum (UInt16.ofNat pieces.length) 0 pieces) k p →
          k ∈ K₁ := by
      by_cases hseq : splitSeqnum p = seqnum
      · obtain ⟨k, hkm, hk⟩ := ha hseq
        have hfull : ∀ {L : Finset ℕ}, m ∉ L → L ≠ Finset.range pieces.length := by
          rintro L hL rfl
          exact hL (Finset.mem_range.mpr hm)
        have hmk : m ∉ Insert.insert k K := by
          simp [hkm.symm, hmK]
        rcases insert_chunk hn h hK (hfull hmK) hk reliable with ⟨-, buf₁, hins, h₁⟩ | ⟨hall, -⟩
        · have hkn : k < pieces.length := by
            obtain ⟨-, -, -, -, hk, -⟩ := hk
            simpa [numberedChunks] using hk
          refine ⟨[], buf₁, _, hins, fun _ => rfl, h₁,
            Finset.insert_subset (Finset.mem_range.mpr hkn) hK, hmk, Finset.subset_insert _ _, ?_⟩
          intro j hj
          rw [carries_inj hn hj hk]
          exact Finset.mem_insert_self _ _
        · exact absurd hall (hfull hmk)
      · obtain ⟨r, buf₁, hins, hlook⟩ := insert_other buf hseq reliable
        refine ⟨r, buf₁, K, hins, fun h => absurd h hseq, ?_, hK, hmK, subset_rfl, ?_⟩
        · rw [Holds, hlook]
          exact h
        · exact fun k hk => absurd (splitSeqnum_of_carries hk) hseq
    obtain ⟨results, buf', K', hrest, hres, h', hK', hmK', hsub', hmem'⟩ := ih harr h₁ hK₁ hmK₁
    refine ⟨r :: results, buf', K', ?_, .cons hr hres, h', hK', hmK', hsub.trans hsub', ?_⟩
    · rw [insertAll, hins]
      change (buf₁.insertAll arrivals >>= fun x => pure (r :: x.1, x.2)) = _
      rw [hrest]
      rfl
    · rintro a (_ | ⟨_, ha⟩) k hk
      · exact hsub' (hmem k hk)
      · exact hmem' a ha k hk

end IncomingSplitBuffer

/-- The packets that arrive while chunk `m` is missing: of the split packet `seqnum`, only
datagrams that carry other chunks. -/
def Without (chunks : List SharedBuffer) (seqnum : UInt16) (m : ℕ)
    (arrivals : List (BufferedPacket × Bool)) : Prop :=
  ∀ a ∈ arrivals, splitSeqnum a.1 = seqnum → ∃ k, k ≠ m ∧ Carries chunks k a.1

/-- A payload that is not split is one packet. The chunks of a payload that is split, in any
order, repeated and among other packets, come out of a buffer without an entry for them as
nothing until the last of them arrives, and then as the payload; the entry is gone. -/
theorem makeAutoSplitPacket_insertAll {data : SharedBuffer} {chunksizeMax : UInt32}
    {seqnum seqnum' : UInt16} {chunks : List SharedBuffer} (hlen : data.length < 2 ^ 32)
    (h : makeAutoSplitPacket data chunksizeMax seqnum = some (chunks, seqnum')) :
    data.length + 1 ≤ chunksizeMax.toNat ∧ chunks = [makeOriginalPacket data] ∨
    chunksizeMax.toNat < data.length + 1 ∧
      ∀ (buf : IncomingSplitBuffer) (arrivals : List (BufferedPacket × Bool)) (m : ℕ),
        seqnum ∉ buf → m < chunks.length → Without chunks seqnum m arrivals →
        ∃ results buf', buf.insertAll arrivals = .ok (results, buf') ∧
          List.Forall₂ (fun a r => splitSeqnum a.1 = seqnum → r = []) arrivals results ∧
          ∀ last : BufferedPacket × Bool, Carries chunks m last.1 →
            (∀ k < chunks.length, k ≠ m → ∃ a ∈ arrivals, Carries chunks k a.1) →
            ∃ buf'', buf'.insert last.1 last.2 = .ok (data, buf'') ∧ seqnum ∉ buf'' := by
  unfold makeAutoSplitPacket at h
  split_ifs at h with hsize
  swap
  · obtain ⟨rfl, -⟩ := Prod.mk.inj (Option.some.inj h)
    exact .inl ⟨not_lt.mp hsize, rfl⟩
  obtain ⟨chunks', hsplit, heq⟩ := Option.map_eq_some_iff.mp h
  obtain ⟨rfl, -⟩ := Prod.mk.inj heq
  obtain ⟨pieces, -, hflat, hn, rfl⟩ := makeSplitPacket_spec hlen hsize hsplit
  refine .inr ⟨hsize, fun buf arrivals m hbuf hm harr => ?_⟩
  have hlength : (numberedChunks seqnum (UInt16.ofNat pieces.length) 0 pieces).length =
      pieces.length := by
    simp [numberedChunks]
  rw [hlength] at hm
  obtain ⟨results, buf', K, hins, hres, hK, hsub, hmK, -, hall⟩ :=
    IncomingSplitBuffer.insertAll_missing hn hm arrivals harr
      (.inl ⟨Finmap.lookup_eq_none.mpr hbuf, rfl⟩) (Finset.empty_subset _) (Finset.notMem_empty m)
  refine ⟨results, buf', hins, hres, fun last hlast hothers => ?_⟩
  have hfull : insert m K = Finset.range pieces.length := by
    apply (Finset.insert_subset (Finset.mem_range.mpr hm) hsub).antisymm
    intro k hk
    rw [Finset.mem_range, ← hlength] at hk
    by_cases hkm : k = m
    · exact hkm ▸ Finset.mem_insert_self _ _
    · obtain ⟨a, ha, hka⟩ := hothers k hk hkm
      exact Finset.mem_insert_of_mem (hall a ha k hka)
  have hne : K ≠ Finset.range pieces.length := by
    rintro rfl
    exact hmK (Finset.mem_range.mpr hm)
  rcases IncomingSplitBuffer.insert_chunk hn hK hsub hne hlast last.2 with
    ⟨hnot, -⟩ | ⟨-, buf'', hlast', hgone⟩
  · exact absurd hfull hnot
  · exact ⟨buf'', by rw [hlast', hflat], Finmap.lookup_eq_none.mp hgone⟩

/-- Twelve bytes in chunks of five: the chunks arrive as 2, 0, 2, 1. -/
theorem makeAutoSplitPacket_insertAll_twelve :
    let chunks := numberedChunks 7 3 0 [[0, 1, 2, 3, 4], [5, 6, 7, 8, 9], [10, 11]]
    let packet := fun k => (makePacket ⟨[127, 0, 0, 1], 30000⟩ (chunks.getD k []) 0x4f457403 2 0, true)
    makeAutoSplitPacket [0, 1, 2, 3, 4, 5, 6, 7, 8, 9, 10, 11] 12 7 = some (chunks, 8) ∧
      ∃ results buf' buf'',
        IncomingSplitBuffer.insertAll ∅ [packet 2, packet 0, packet 2] = .ok (results, buf') ∧
        List.Forall₂ (fun a r => splitSeqnum a.1 = 7 → r = []) [packet 2, packet 0, packet 2]
          results ∧
        buf'.insert (packet 1).1 true =
          .ok ([0, 1, 2, 3, 4, 5, 6, 7, 8, 9, 10, 11], buf'') ∧ 7 ∉ buf'' := by
  intro chunks packet
  have hmake : makeAutoSplitPacket [0, 1, 2, 3, 4, 5, 6, 7, 8, 9, 10, 11] 12 7 =
      some (chunks, 8) := by rfl
  have hcarries : ∀ k < 3, Carries chunks k (packet k).1 := by
    intro k hk
    refine ⟨⟨[127, 0, 0, 1], 30000⟩, 0x4f457403, 2, 0, hk, ?_⟩
    simp only [packet]
    rw [List.getD_eq_getElem?_getD, List.getElem?_eq_getElem (show k < chunks.length from hk)]
    rfl
  refine ⟨hmake, ?_⟩
  rcases makeAutoSplitPacket_insertAll (by decide) hmake with ⟨hle, -⟩ | ⟨-, hall⟩
  · exact absurd hle (by decide)
  · obtain ⟨results, buf', hins, hres, hlast⟩ := hall ∅ [packet 2, packet 0, packet 2] 1
      Finmap.notMem_empty (by decide) (by
        intro a ha _
        simp only [List.mem_cons, List.not_mem_nil, or_false] at ha
        rcases ha with rfl | rfl | rfl
        · exact ⟨2, by decide, hcarries 2 (by decide)⟩
        · exact ⟨0, by decide, hcarries 0 (by decide)⟩
        · exact ⟨2, by decide, hcarries 2 (by decide)⟩)
    obtain ⟨buf'', hins', hgone⟩ := hlast (packet 1) (hcarries 1 (by decide)) (by
      intro k hk hk1
      have hk : k < 3 := hk
      obtain rfl | rfl : k = 0 ∨ k = 2 := by omega
      · exact ⟨packet 0, by simp, hcarries 0 (by decide)⟩
      · exact ⟨packet 2, by simp, hcarries 2 (by decide)⟩)
    exact ⟨results, buf', buf'', hins, hres, hins', hgone⟩

end Freeminer.Mtp
