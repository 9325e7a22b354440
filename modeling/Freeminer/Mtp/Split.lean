import Mathlib.Data.Finmap
import Freeminer.Mtp.Packet

/-! Packets too big for a datagram: `makeSplitPacket` cuts them into numbered chunks,
`IncomingSplitBuffer` puts the chunks together again. The sizes of `makeSplitPacket` are
`u32` and compared with a `size_t`, as in the source. -/

namespace Freeminer.Mtp

def chunkHeaderSize : UInt32 := 7

def splitChunk (seqnum chunkCount chunkNum : UInt16) (d : SharedBuffer) : SharedBuffer :=
  PACKET_TYPE_SPLIT :: writeU16 seqnum ++ writeU16 chunkCount ++ writeU16 chunkNum ++ d

/-- `end` of the loop of `makeSplitPacket`: the last byte of the chunk that begins at `start`. -/
def splitEnd (data : SharedBuffer) (maximumDataSize start : UInt32) : UInt32 :=
  if (start + maximumDataSize - 1).toUInt64 > UInt64.ofNat data.length - 1 then
    (UInt64.ofNat data.length - 1).toUInt32
  else start + maximumDataSize - 1

/-- The loop of `makeSplitPacket`, with the number after the last chunk's. `left` more chunks
pass `sanity_check(chunk_num < 0xFFFF)`; `none` is a failure of it, or a copy that leaves its
buffers. -/
def makeSplitPacketLoop (data : SharedBuffer) (maximumDataSize : UInt32) (seqnum : UInt16) :
    ℕ → UInt32 → UInt16 → Option (List SharedBuffer × UInt16)
  | 0, _, _ => none
  | left + 1, start, chunkNum =>
    let stop := splitEnd data maximumDataSize start
    let payloadSize := stop - start + 1
    let packetSize := chunkHeaderSize + payloadSize
    if packetSize.toNat < chunkHeaderSize.toNat + payloadSize.toNat then none
    else if data.length < start.toNat + payloadSize.toNat then none
    else
      -- the chunk count is written at the next stage
      let chunk := splitChunk seqnum 0 chunkNum ((data.drop start.toNat).take payloadSize.toNat)
      if stop.toUInt64 = UInt64.ofNat data.length - 1 then some ([chunk], chunkNum + 1)
      else
        (makeSplitPacketLoop data maximumDataSize seqnum left (stop + 1) (chunkNum + 1)).map
          fun (chunks, n) => (chunk :: chunks, n)

def makeSplitPacket (data : SharedBuffer) (chunksizeMax : UInt32) (seqnum : UInt16) :
    Option (List SharedBuffer) :=
  (makeSplitPacketLoop data (chunksizeMax - chunkHeaderSize) seqnum 0xFFFF 0 0).map
    fun (chunks, chunkNum) =>
      chunks.map fun chunk => chunk.take 3 ++ writeU16 chunkNum ++ chunk.drop 5

def makeAutoSplitPacket (data : SharedBuffer) (chunksizeMax : UInt32) (splitSeqnum : UInt16) :
    Option (List SharedBuffer × UInt16) :=
  if data.length + 1 > chunksizeMax.toNat then
    (makeSplitPacket data chunksizeMax splitSeqnum).map fun chunks => (chunks, splitSeqnum + 1)
  else some ([makeOriginalPacket data], splitSeqnum)

/-! ## The receiving side -/

structure IncomingSplitPacket where
  chunkCount : UInt32
  /-- If true, isn't deleted on timeout. -/
  reliable : Bool
  chunks : Finmap fun _ : UInt16 => SharedBuffer := ∅

namespace IncomingSplitPacket

def allReceived (sp : IncomingSplitPacket) : Bool := sp.chunks.keys.card = sp.chunkCount.toNat

def insert (sp : IncomingSplitPacket) (chunkNum : UInt32) (chunkdata : SharedBuffer) :
    Except ConException (Bool × IncomingSplitPacket) :=
  if ¬chunkNum < sp.chunkCount then .error .sanityCheck
  else if chunkNum.toUInt16 ∈ sp.chunks then .ok (false, sp)
  else .ok (true, { sp with chunks := sp.chunks.insert chunkNum.toUInt16 chunkdata })

def reassemble (sp : IncomingSplitPacket) : Except ConException SharedBuffer :=
  if !sp.allReceived then .error .sanityCheck
  else
    .ok ((List.range sp.chunkCount.toNat).flatMap fun i =>
      (sp.chunks.lookup (UInt16.ofNat i)).getD [])

end IncomingSplitPacket

abbrev IncomingSplitBuffer := Finmap fun _ : UInt16 => IncomingSplitPacket

namespace IncomingSplitBuffer

/-- The end of `insert`: the chunk goes to `sp`, the entry of `seqnum`. -/
def insertChunk (buf : IncomingSplitBuffer) (seqnum : UInt16) (sp : IncomingSplitPacket)
    (chunkNum : UInt32) (chunkdata : SharedBuffer) :
    Except ConException (SharedBuffer × IncomingSplitBuffer) := do
  let (new, sp) ← sp.insert chunkNum chunkdata
  let buf := Finmap.insert seqnum sp buf
  if !new then pure ([], buf)
  else if !sp.allReceived then pure ([], buf)
  else
    let fulldata ← sp.reassemble
    pure (fulldata, Finmap.erase seqnum buf)

def insert (buf : IncomingSplitBuffer) (p : BufferedPacket) (reliable : Bool) :
    Except ConException (SharedBuffer × IncomingSplitBuffer) :=
  let headersize := BASE_HEADER_SIZE + 7
  if p.size < headersize then .ok ([], buf)
  else
    let type := readU8 (p.data.drop BASE_HEADER_SIZE)
    let seqnum := readU16 (p.data.drop (BASE_HEADER_SIZE + 1))
    let chunkCount := readU16 (p.data.drop (BASE_HEADER_SIZE + 3))
    let chunkNum := readU16 (p.data.drop (BASE_HEADER_SIZE + 5))
    if type ≠ PACKET_TYPE_SPLIT then .ok ([], buf)
    else if ¬chunkNum < chunkCount then .ok ([], buf)
    else
      -- add if it doesn't exist
      let sp := (buf.lookup seqnum).getD { chunkCount := chunkCount.toUInt32, reliable }
      if chunkCount.toUInt32 ≠ sp.chunkCount then .ok ([], Finmap.insert seqnum sp buf)
      else buf.insertChunk seqnum sp chunkNum.toUInt32 (p.data.drop headersize)

/-- `insert` for a list of packets: what each returned, and the buffer afterwards. -/
def insertAll (buf : IncomingSplitBuffer) :
    List (BufferedPacket × Bool) → Except ConException (List SharedBuffer × IncomingSplitBuffer)
  | [] => .ok ([], buf)
  | (p, reliable) :: rest => do
    let (r, buf) ← buf.insert p reliable
    let (rs, buf) ← insertAll buf rest
    pure (r :: rs, buf)

end IncomingSplitBuffer

/-! ## What the chunks are -/

/-- The chunks that carry `pieces`, numbered from `num`. -/
def numberedChunks (seqnum chunkCount : UInt16) (num : ℕ) (pieces : List SharedBuffer) :
    List SharedBuffer :=
  (pieces.zipIdx num).map fun (d, i) => splitChunk seqnum chunkCount (UInt16.ofNat i) d

section Loop

variable {data : SharedBuffer} {maximumDataSize start : UInt32} {seqnum : UInt16}
  (hlen : data.length < 2 ^ 32) (hstart : start.toNat < data.length)

include hlen hstart

theorem toNat_last : (UInt64.ofNat data.length - 1).toNat = data.length - 1 := by
  rw [UInt64.toNat_sub_of_le]
  · simp
    omega
  · rw [UInt64.le_iff_toNat_le]
    simp
    omega

variable (maximumDataSize) in
theorem toNat_splitEnd :
    (splitEnd data maximumDataSize start).toNat =
      min ((start.toNat + maximumDataSize.toNat + (2 ^ 32 - 1)) % 2 ^ 32) (data.length - 1) := by
  have hlast := toNat_last hlen hstart
  have hend : (start + maximumDataSize - 1).toNat =
      (start.toNat + maximumDataSize.toNat + (2 ^ 32 - 1)) % 2 ^ 32 := by
    simp only [UInt32.toNat_sub, UInt32.toNat_add, UInt32.toNat_one]
    omega
  rw [splitEnd]
  split <;> rename_i hc <;>
    simp only [gt_iff_lt, UInt64.lt_iff_toNat_lt, UInt32.toNat_toUInt64, hlast, hend] at hc
  · rw [UInt64.toNat_toUInt32, hlast]
    omega
  · rw [hend]
    omega

/-- What the loop makes are the chunks of pieces that concatenate to the data from `start` on.
A chunk whose end wraps around has no room in the data or in its own buffer. -/
theorem makeSplitPacketLoop_spec {left num : ℕ} {chunks : List SharedBuffer} {n : UInt16}
    (hM : maximumDataSize = 0 → start = 0) (hleft : num + left = 0xFFFF)
    (h : makeSplitPacketLoop data maximumDataSize seqnum left start (UInt16.ofNat num) =
      some (chunks, n)) :
    ∃ pieces : List SharedBuffer, pieces ≠ [] ∧ pieces.flatten = data.drop start.toNat ∧
      num + pieces.length ≤ 0xFFFF ∧ n = UInt16.ofNat (num + pieces.length) ∧
      chunks = numberedChunks seqnum 0 num pieces := by
  induction left generalizing start num chunks with
  | zero => exact nomatch h
  | succ left ih =>
    have hend := toNat_splitEnd maximumDataSize hlen hstart
    have hlast := toNat_last hlen hstart
    rw [makeSplitPacketLoop] at h
    generalize splitEnd data maximumDataSize start = stop at h hend
    have hM' : maximumDataSize.toNat = 0 → start.toNat = 0 := by
      intro h0
      rw [hM (UInt32.toNat_inj.mp h0)]
      rfl
    have hs := start.toNat_lt
    have hm := maximumDataSize.toNat_lt
    have hp : (stop - start + 1).toNat = (stop.toNat + 2 ^ 32 - start.toNat + 1) % 2 ^ 32 := by
      have := stop.toNat_lt
      simp only [UInt32.toNat_add, UInt32.toNat_sub, UInt32.toNat_one]
      omega
    dsimp only at h
    split_ifs at h with h1 h2 h3
    · have hpay : (stop - start + 1).toNat = data.length - start.toNat := by
        have := congrArg UInt64.toNat h3
        rw [UInt32.toNat_toUInt64, hlast] at this
        omega
      obtain ⟨rfl, rfl⟩ := Prod.mk.inj (Option.some.inj h)
      refine ⟨[data.drop start.toNat], by simp, by simp, by simp; omega, by simp, ?_⟩
      rw [hpay, List.take_of_length_le (by simp)]
      rfl
    · have hne : stop.toNat ≠ data.length - 1 := by
        intro he
        refine h3 (UInt64.toNat_inj.mp ?_)
        rw [UInt32.toNat_toUInt64, hlast, he]
      have hpay : (stop - start + 1).toNat = stop.toNat + 1 - start.toNat ∧
          start.toNat ≤ stop.toNat := by
        omega
      have hnext : (stop + 1).toNat = stop.toNat + 1 := by
        simp only [UInt32.toNat_add, UInt32.toNat_one]
        omega
      obtain ⟨⟨rest, n'⟩, hrest, heq⟩ := Option.map_eq_some_iff.mp h
      obtain ⟨rfl, rfl⟩ := Prod.mk.inj heq
      rw [show UInt16.ofNat num + 1 = UInt16.ofNat (num + 1) by simp] at hrest
      have hM0 : maximumDataSize = 0 → stop + 1 = 0 := by
        intro h0
        have h0 := congrArg UInt32.toNat h0
        have := hM' h0
        simp only [UInt32.toNat_zero] at h0
        omega
      obtain ⟨pieces, -, hflat, hle, hn, rfl⟩ := ih (by omega) hM0 (by omega) hrest
      refine ⟨(data.drop start.toNat).take (stop.toNat + 1 - start.toNat) :: pieces, by simp, ?_,
        by simp; omega, ?_, ?_⟩
      · rw [List.flatten_cons, hflat, hnext]
        conv_rhs =>
          rw [← List.take_append_drop (stop.toNat + 1 - start.toNat) (data.drop start.toNat)]
        rw [List.drop_drop]
        congr 2
        omega
      · rw [hn, List.length_cons]
        congr 1
        omega
      · rw [hpay.1]
        rfl

/-- With room for a header the loop ends, after the number of chunks that fit the data. -/
theorem makeSplitPacketLoop_isSome {left : ℕ} {num : UInt16} (hM : 0 < maximumDataSize.toNat)
    (hroom : data.length + maximumDataSize.toNat + 7 < 2 ^ 32)
    (hleft : data.length - start.toNat ≤ left * maximumDataSize.toNat) :
    ∃ chunks n, makeSplitPacketLoop data maximumDataSize seqnum left start num =
        some (chunks, n) ∧
      chunks.length = (data.length - start.toNat + maximumDataSize.toNat - 1) /
        maximumDataSize.toNat := by
  induction left generalizing start num with
  | zero => omega
  | succ left ih =>
    have hend := toNat_splitEnd maximumDataSize hlen hstart
    have hlast := toNat_last hlen hstart
    rw [makeSplitPacketLoop]
    generalize splitEnd data maximumDataSize start = stop at hend
    have hs := start.toNat_lt
    have hend' : stop.toNat = min (start.toNat + maximumDataSize.toNat - 1) (data.length - 1) := by
      rw [hend]
      omega
    have hp : (stop - start + 1).toNat = stop.toNat + 1 - start.toNat := by
      have := stop.toNat_lt
      simp only [UInt32.toNat_add, UInt32.toNat_sub, UInt32.toNat_one]
      omega
    have h7 : chunkHeaderSize.toNat = 7 := rfl
    have hpk : (chunkHeaderSize + (stop - start + 1)).toNat = 7 + (stop.toNat + 1 - start.toNat) := by
      rw [UInt32.toNat_add, hp, h7]
      omega
    dsimp only
    rw [if_neg (by omega), if_neg (by omega)]
    split_ifs with h3
    · have hstop : stop.toNat = data.length - 1 := by
        rw [← hlast, ← h3, UInt32.toNat_toUInt64]
      refine ⟨_, _, rfl, ?_⟩
      symm
      apply Nat.div_eq_of_lt_le
      · simp
        omega
      · simp
        omega
    · have hne : stop.toNat ≠ data.length - 1 := by
        intro he
        refine h3 (UInt64.toNat_inj.mp ?_)
        rw [UInt32.toNat_toUInt64, hlast, he]
      have hnext : (stop + 1).toNat = start.toNat + maximumDataSize.toNat := by
        simp only [UInt32.toNat_add, UInt32.toNat_one]
        omega
      obtain ⟨chunks, n, heq, hl⟩ := @ih (stop + 1) (by omega) (num + 1) (by
        rw [hnext]
        rw [Nat.succ_mul] at hleft
        omega)
      refine ⟨_, _, by rw [heq]; rfl, ?_⟩
      rw [List.length_cons, hl, hnext, ← Nat.add_div_right _ hM]
      congr 1
      omega

end Loop

theorem setCount_numberedChunks (seqnum count : UInt16) (num : ℕ) (pieces : List SharedBuffer) :
    ((numberedChunks seqnum 0 num pieces).map fun chunk =>
      chunk.take 3 ++ writeU16 count ++ chunk.drop 5) = numberedChunks seqnum count num pieces := by
  simp only [numberedChunks, List.map_map]
  rfl

variable {data : SharedBuffer} {chunksizeMax : UInt32} {seqnum : UInt16}

theorem makeSplitPacket_spec {chunks : List SharedBuffer} (hlen : data.length < 2 ^ 32)
    (hsplit : chunksizeMax.toNat < data.length + 1)
    (h : makeSplitPacket data chunksizeMax seqnum = some chunks) :
    ∃ pieces : List SharedBuffer, pieces ≠ [] ∧ pieces.flatten = data ∧ pieces.length ≤ 0xFFFF ∧
      chunks = numberedChunks seqnum (UInt16.ofNat pieces.length) 0 pieces := by
  obtain ⟨⟨raw, n⟩, hloop, rfl⟩ := Option.map_eq_some_iff.mp h
  rcases data with _ | ⟨b, data⟩
  · -- nothing is as big as a chunk without room for anything, and that chunk does not fit
    obtain rfl : chunksizeMax = 0 := UInt32.toNat_inj.mp (by simpa using hsplit)
    have hnone : makeSplitPacketLoop [] (0 - chunkHeaderSize) seqnum 0xFFFF 0 0 = none := rfl
    exact nomatch hnone.symm.trans hloop
  · obtain ⟨pieces, hne, hflat, hle, rfl, rfl⟩ := makeSplitPacketLoop_spec hlen
      (by simp) (fun _ => rfl) rfl hloop
    refine ⟨pieces, hne, by simpa using hflat, by omega, ?_⟩
    rw [Nat.zero_add]
    exact setCount_numberedChunks _ _ _ _

theorem makeSplitPacket_isSome (hc : 7 < chunksizeMax.toNat)
    (hroom : data.length + chunksizeMax.toNat < 2 ^ 32) (hne : data ≠ [])
    (hleft : data.length ≤ 0xFFFF * (chunksizeMax.toNat - 7)) :
    ∃ chunks, makeSplitPacket data chunksizeMax seqnum = some chunks ∧
      chunks.length = (data.length + (chunksizeMax.toNat - 7) - 1) / (chunksizeMax.toNat - 7) := by
  have hM : (chunksizeMax - chunkHeaderSize).toNat = chunksizeMax.toNat - 7 := by
    rw [UInt32.toNat_sub_of_le]
    · rfl
    · rw [UInt32.le_iff_toNat_le]
      exact hc.le
  have hpos : 0 < data.length := List.length_pos_iff.mpr hne
  obtain ⟨chunks, n, heq, hl⟩ : ∃ chunks n,
      makeSplitPacketLoop data (chunksizeMax - chunkHeaderSize) seqnum 0xFFFF 0 0 = some (chunks, n) ∧
      chunks.length = (data.length - (0 : UInt32).toNat + (chunksizeMax - chunkHeaderSize).toNat - 1) /
        (chunksizeMax - chunkHeaderSize).toNat :=
    makeSplitPacketLoop_isSome (by omega) (by simpa using hpos) (by omega) (by omega)
      (by rw [hM]; simpa using hleft)
  refine ⟨_, by rw [makeSplitPacket, heq]; rfl, ?_⟩
  rw [List.length_map, hl, hM]
  rfl

end Freeminer.Mtp
