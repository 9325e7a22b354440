import Freeminer.Network.NetworkPacket

/-! Which reads of a packet stay inside its data. A check fails when a sum of 32 bits is beyond the
data size, so it also passes where the sum wraps; `operator>>(s64 &)` checks fewer bytes than it
reads. Elsewhere a read that passes its check touches no byte beyond the data. -/

namespace Freeminer.Network

def Outcome.Within {α : Type} (x : Outcome α) (datasize : ℕ) : Prop :=
  ∀ r ∈ x.touched, r.1 + r.2 ≤ datasize

theorem within_andThen {α β : Type} (x : Outcome α) (f : α → NetworkPacket → Outcome β) (n : ℕ) :
    (x.andThen f).Within n ↔ x.Within n ∧ ∀ a, x.value = .ok a → (f a x.packet).Within n := by
  unfold Outcome.andThen Outcome.Within
  cases h : x.value with
  | error e => simp
  | ok a => simp [or_imp, forall_and]

namespace NetworkPacket

/-- The read offset is inside the data, as it is after `putRawPacket`. -/
def Valid (p : NetworkPacket) : Prop := p.readOffset.toNat ≤ p.data.length

instance (p : NetworkPacket) : Decidable p.Valid :=
  inferInstanceAs (Decidable (p.readOffset.toNat ≤ p.data.length))

def NoWrap (p : NetworkPacket) (size : ℕ) : Prop := p.readOffset.toNat + size < 2 ^ 32

@[simp] theorem advance_data (p : NetworkPacket) (size : UInt32) : (p.advance size).data = p.data :=
  rfl

@[simp] theorem advance_readOffset (p : NetworkPacket) (size : UInt32) :
    (p.advance size).readOffset = p.readOffset + size := rfl

theorem datasize_toNat (p : NetworkPacket) : p.datasize.toNat = p.data.length := by
  have := p.length_lt
  simp only [datasize, UInt32.toNat_ofNat']
  exact Nat.mod_eq_of_lt this

theorem checkReadOffset_cases (p : NetworkPacket) (size : UInt32) :
    ((p.advance size).Valid ∧ p.checkReadOffset p.readOffset size = .ok ()) ∨
      (¬ (p.advance size).Valid ∧ ∃ e, p.checkReadOffset p.readOffset size = .error e) := by
  have hlt : p.datasize < p.readOffset + size ↔
      p.data.length < (p.readOffset + size).toNat := by
    rw [UInt32.lt_iff_toNat_lt, datasize_toNat]
  unfold checkReadOffset Valid
  split_ifs with h
  · exact .inr ⟨by simpa using hlt.mp h, _, rfl⟩
  · exact .inl ⟨by simpa using mt hlt.mpr h, rfl⟩

/-- A check passes inside the data, and where its sum wraps. -/
theorem valid_advance_iff {p : NetworkPacket} (hv : p.Valid) (size : UInt32) :
    (p.advance size).Valid ↔
      p.readOffset.toNat + size.toNat ≤ p.data.length ∨ ¬ p.NoWrap size.toNat := by
  have hn := p.length_lt
  have hs := size.toNat_lt
  simp only [Valid, NoWrap, advance_data, advance_readOffset, UInt32.toNat_add] at hv ⊢
  omega

end NetworkPacket

/-- Which state of a packet a read is safe in: no sum wraps, and a value of type `s64` is there as a
whole, or its first half is not there either. -/
def ReadOp.Safe (p : NetworkPacket) : ReadOp → Prop
  | .field .s64 => p.NoWrap 4 ∧ (p.data.length < p.readOffset.toNat + 4 ∨
      p.readOffset.toNat + 8 ≤ p.data.length)
  | .field .v3s64 => p.NoWrap 24 ∨ p.readOffset.toNat + 16 ≤ p.data.length
  | .field f => p.NoWrap (f.spec p.protoVer).checked.toNat
  | .string => p.NoWrap 2 ∧ (p.readOffset.toNat + 2 ≤ p.data.length →
      p.NoWrap (2 + (readU16 (p.bytesFrom p.readOffset)).toNat))
  | .wstring => p.NoWrap 2 ∧ (p.readOffset.toNat + 2 ≤ p.data.length →
      p.NoWrap (2 + 2 * (readU16 (p.bytesFrom p.readOffset)).toNat))
  | .longString => p.NoWrap 4 ∧ (p.readOffset.toNat + 4 ≤ p.data.length →
      (readU32 (p.bytesFrom p.readOffset)).toNat ≤ LONG_STRING_MAX_LEN →
      p.NoWrap (4 + (readU32 (p.bytesFrom p.readOffset)).toNat))
  | .rawString len => p.NoWrap len.toNat
  | .skip _ => True

namespace NetworkPacket

section Field

/-- A field checks as much as it reads, two of them apart. -/
theorem spec_width (f : Field) (protoVer : UInt16) (h : f ≠ .s64) (h' : f ≠ .v3s64) :
    (f.spec protoVer).width = (f.spec protoVer).checked.toNat := by
  cases f with
  | s64 => exact absurd rfl h
  | v3s64 => exact absurd rfl h'
  | pos | v3pos | v3opos =>
    simp only [Field.spec]
    split_ifs <;> rfl
  | _ => rfl

theorem readChecked_within_iff {p : NetworkPacket} (hv : p.Valid) (checked : UInt32) (width : ℕ)
    (decode : SharedBuffer → Value) : (p.readChecked checked width decode).Within p.data.length ↔
      (p.data.length < p.readOffset.toNat + checked.toNat ∧ p.NoWrap checked.toNat) ∨
        p.readOffset.toNat + width ≤ p.data.length := by
  have hiff := valid_advance_iff hv checked
  unfold readChecked Outcome.Within
  rcases p.checkReadOffset_cases checked with ⟨h, hok⟩ | ⟨h, e, herr⟩
  · rw [hok]
    have := hiff.mp h
    simp only [List.mem_singleton, forall_eq]
    constructor
    · exact .inr
    · rintro (⟨hlt, hw⟩ | hle)
      · rcases this with h | h
        · omega
        · exact absurd hw h
      · exact hle
  · rw [herr]
    have : ¬ (_ ∨ _) := fun hor => h (hiff.mpr hor)
    simp only [not_or, not_not, not_le] at this
    simp [this]

theorem readChecked_within_of_width {p : NetworkPacket} (hv : p.Valid) (checked : UInt32)
    (decode : SharedBuffer → Value) :
    (p.readChecked checked checked.toNat decode).Within p.data.length ↔
      p.NoWrap checked.toNat := by
  have hn := p.length_lt
  rw [readChecked_within_iff hv]
  unfold NoWrap
  omega

theorem readField_within_iff {p : NetworkPacket} (hv : p.Valid) (f : Field) :
    (p.readField f).Within p.data.length ↔ ReadOp.Safe p (.field f) := by
  have hn := p.length_lt
  by_cases hs : f = .s64
  · subst hs
    have h4 : (4 : UInt32).toNat = 4 := rfl
    simp only [readField, Field.spec, readChecked_within_iff hv, ReadOp.Safe, NoWrap, h4]
    omega
  by_cases hs' : f = .v3s64
  · subst hs'
    have h24 : (24 : UInt32).toNat = 24 := rfl
    simp only [readField, Field.spec, readChecked_within_iff hv, ReadOp.Safe, NoWrap, h24]
    omega
  have hsafe : ReadOp.Safe p (.field f) = p.NoWrap (f.spec p.protoVer).checked.toNat := by
    cases f <;> first | rfl | contradiction
  rw [hsafe, readField, spec_width f _ hs hs', readChecked_within_of_width hv]

end Field

section Text

theorem readRawString_within_iff {p : NetworkPacket} (hv : p.Valid) (len : UInt32) :
    (p.readRawString len).Within p.data.length ↔ p.NoWrap len.toNat := by
  have hn := p.length_lt
  have hiff := valid_advance_iff hv len
  unfold readRawString
  rcases p.checkReadOffset_cases len with ⟨h, hok⟩ | ⟨h, e, herr⟩
  · rw [hok]
    simp only
    split_ifs with h0
    · subst h0
      have : p.NoWrap 0 := lt_of_le_of_lt hv hn
      simpa [Outcome.Within] using this
    · have := hiff.mp h
      simp only [Outcome.Within, List.mem_singleton, forall_eq]
      unfold NoWrap at this ⊢
      omega
  · rw [herr]
    have : ¬ (_ ∨ _) := fun hor => h (hiff.mpr hor)
    simp only [not_or, not_not] at this
    simp [Outcome.Within, this]

theorem readText_within_iff {p : NetworkPacket} (hv : p.Valid) (strLen : UInt32) :
    (p.readText strLen).Within p.data.length ↔ p.NoWrap strLen.toNat := by
  unfold readText
  split_ifs with h0
  · subst h0
    have : p.NoWrap 0 := lt_of_le_of_lt hv p.length_lt
    simpa [Outcome.Within] using this
  · exact readRawString_within_iff hv strLen

/-- What follows a length is read where the length was. -/
theorem andThen_within_iff {p : NetworkPacket} (hv : p.Valid) (checked : UInt32)
    (decode : SharedBuffer → Value) (k : NetworkPacket → Outcome Value) :
    ((p.readChecked checked checked.toNat decode).andThen fun _ q => k q).Within p.data.length ↔
      p.NoWrap checked.toNat ∧ (p.readOffset.toNat + checked.toNat ≤ p.data.length →
        (k (p.advance checked)).Within p.data.length) := by
  rw [within_andThen, readChecked_within_of_width hv]
  refine and_congr_right fun hw => ?_
  have hiff := valid_advance_iff hv checked
  simp only [not_true, or_false, hw] at hiff
  rw [← hiff]
  unfold readChecked
  rcases p.checkReadOffset_cases checked with ⟨h, hok⟩ | ⟨h, e, herr⟩
  · simp [hok, h]
  · simp [herr, h]

theorem noWrap_advance {p : NetworkPacket} {size : UInt32} (hw : p.NoWrap size.toNat) (n : ℕ) :
    (p.advance size).NoWrap n ↔ p.NoWrap (size.toNat + n) := by
  simp only [NoWrap, advance_readOffset, UInt32.toNat_add] at hw ⊢
  rw [Nat.mod_eq_of_lt hw, Nat.add_assoc]

theorem readString_within_iff {p : NetworkPacket} (hv : p.Valid) :
    p.readString.Within p.data.length ↔ ReadOp.Safe p .string := by
  have h2 : (2 : UInt32).toNat = 2 := rfl
  unfold readString
  rw [← h2, andThen_within_iff hv]
  refine and_congr_right fun hw => forall_congr' fun hle => ?_
  have hq : (p.advance 2).Valid := (valid_advance_iff hv 2).mpr (.inl hle)
  have := readText_within_iff hq (readU16 (p.bytesFrom p.readOffset)).toUInt32
  rw [advance_data] at this
  rw [this, noWrap_advance hw]
  simp

theorem readLongString_within_iff {p : NetworkPacket} (hv : p.Valid) :
    p.readLongString.Within p.data.length ↔ ReadOp.Safe p .longString := by
  have h4 : (4 : UInt32).toNat = 4 := rfl
  unfold readLongString
  rw [← h4, andThen_within_iff hv]
  refine and_congr_right fun hw => forall_congr' fun hle => ?_
  have hq : (p.advance 4).Valid := (valid_advance_iff hv 4).mpr (.inl hle)
  have := readText_within_iff hq (readU32 (p.bytesFrom p.readOffset))
  rw [advance_data] at this
  simp only
  split_ifs with hlong
  · have : ¬ (readU32 (p.bytesFrom p.readOffset)).toNat ≤ LONG_STRING_MAX_LEN := by omega
    simp [Outcome.Within, this]
  · rw [this, noWrap_advance hw]
    simp [Nat.le_of_not_lt hlong]

def units : ℕ → UInt32 → List (ℕ × ℕ)
  | 0, _ => []
  | left + 1, offset => (offset.toNat, 2) :: units left (offset + 2)

theorem readWide_touched (left : ℕ) (p : NetworkPacket) (dst : List UInt32) :
    (readWide left p dst).touched = units left p.readOffset := by
  fun_induction readWide left p dst with
  | case1 p dst => rfl
  | case2 p dst => rfl
  | case3 left p dst h ih => simp [unitRead, ih, units]
  | case4 left p dst h ih => simp [unitRead, ih, units]

theorem ofNat_two_mul_succ (left : ℕ) :
    UInt32.ofNat (2 * (left + 1)) = 2 + UInt32.ofNat (2 * left) := by
  rw [Nat.mul_succ, UInt32.ofNat_add, UInt32.add_comm]
  rfl

theorem readWide_packet (left : ℕ) (p : NetworkPacket) (dst : List UInt32) :
    (readWide left p dst).packet.data = p.data ∧
      (readWide left p dst).packet.readOffset = p.readOffset + UInt32.ofNat (2 * left) := by
  fun_induction readWide left p dst with
  | case1 p dst => simp
  | case2 p dst => simp [unitRead]
  | case3 left p dst h ih =>
    refine ⟨ih.1, ih.2.trans ?_⟩
    simp only [advance_readOffset, ofNat_two_mul_succ, UInt32.add_assoc]
  | case4 left p dst h ih =>
    refine ⟨ih.1, ih.2.trans ?_⟩
    simp only [advance_readOffset, ofNat_two_mul_succ, UInt32.add_assoc]

theorem units_within {n : ℕ} (hn : n < 2 ^ 32) (left : ℕ) (offset : UInt32)
    (h : offset.toNat + 2 * left ≤ n) : ∀ r ∈ units left offset, r.1 + r.2 ≤ n := by
  induction left generalizing offset with
  | zero => simp [units]
  | succ left ih =>
    have hoff : (offset + 2).toNat = offset.toNat + 2 := by
      rw [UInt32.toNat_add]
      exact Nat.mod_eq_of_lt (by simp; omega)
    simp only [units, List.mem_cons, forall_eq_or_imp]
    exact ⟨by omega, ih _ (by omega)⟩

/-- Units that run past the end of the offsets run past the end of the data first. -/
theorem units_not_within {n : ℕ} (hn : n < 2 ^ 32) (left : ℕ) (offset : UInt32)
    (h : 2 ^ 32 ≤ offset.toNat + 2 * left) : ¬ ∀ r ∈ units left offset, r.1 + r.2 ≤ n := by
  induction left generalizing offset with
  | zero =>
    have := offset.toNat_lt
    omega
  | succ left ih =>
    simp only [units, List.mem_cons, forall_eq_or_imp, not_and]
    intro hfirst
    have hoff : (offset + 2).toNat = offset.toNat + 2 := by
      rw [UInt32.toNat_add]
      exact Nat.mod_eq_of_lt (by simp; omega)
    exact ih _ (by omega)

theorem readWString_within_iff {p : NetworkPacket} (hv : p.Valid) :
    p.readWString.Within p.data.length ↔ ReadOp.Safe p .wstring := by
  have hn := p.length_lt
  have h2 : (2 : UInt32).toNat = 2 := rfl
  unfold readWString
  rw [← h2, andThen_within_iff hv]
  refine and_congr_right fun hw => forall_congr' fun hle => ?_
  have hq : (p.advance 2).Valid := (valid_advance_iff hv 2).mpr (.inl hle)
  set strLen := readU16 (p.bytesFrom p.readOffset)
  have hlen : (strLen.toUInt32 * 2).toNat = 2 * strLen.toNat := by
    have := strLen.toNat_lt
    rw [UInt32.toNat_mul, UInt16.toNat_toUInt32, h2, Nat.mod_eq_of_lt (by omega), Nat.mul_comm]
  have hiff := valid_advance_iff hq (strLen.toUInt32 * 2)
  have hnw := noWrap_advance hw (2 * strLen.toNat)
  rw [hlen] at hiff
  rw [h2] at hnw
  rw [← hnw]
  simp only
  split_ifs with h0
  · rw [h0]
    have : (p.advance 2).NoWrap 0 := lt_of_le_of_lt hq hn
    simpa [Outcome.Within] using this
  · rcases (p.advance 2).checkReadOffset_cases (strLen.toUInt32 * 2) with ⟨h, hok⟩ | ⟨h, e, herr⟩
    · rw [hok]
      simp only [Outcome.Within, readWide_touched]
      by_cases hw' : (p.advance 2).NoWrap (2 * strLen.toNat)
      · have hle' := (hiff.mp h).resolve_right (not_not.mpr hw')
        exact iff_of_true (units_within hn _ _ hle') hw'
      · exact iff_of_false (units_not_within hn _ _ (not_lt.mp hw')) hw'
    · rw [herr]
      have : ¬ (_ ∨ _) := fun hor => h (hiff.mpr hor)
      simp only [not_or, not_not] at this
      simp [Outcome.Within, this]

end Text

/-- One read stays inside the data in the safe states only. -/
theorem read_within_iff {p : NetworkPacket} (hv : p.Valid) (op : ReadOp) :
    (p.read op).Within p.data.length ↔ op.Safe p := by
  cases op with
  | field f => exact readField_within_iff hv f
  | string => exact readString_within_iff hv
  | wstring => exact readWString_within_iff hv
  | longString => exact readLongString_within_iff hv
  | rawString len => exact readRawString_within_iff hv len
  | skip count =>
    unfold read skip
    rcases p.checkReadOffset_cases count with ⟨-, hok⟩ | ⟨-, e, herr⟩
    · simp [hok, Outcome.Within, ReadOp.Safe]
    · simp [herr, Outcome.Within, ReadOp.Safe]

theorem readChecked_packet {p : NetworkPacket} (hv : p.Valid) (checked : UInt32) (width : ℕ)
    (decode : SharedBuffer → Value) :
    (p.readChecked checked width decode).packet.data = p.data ∧
      (p.readChecked checked width decode).packet.Valid := by
  unfold readChecked
  rcases p.checkReadOffset_cases checked with ⟨h, hok⟩ | ⟨-, e, herr⟩
  · rw [hok]
    exact ⟨rfl, h⟩
  · rw [herr]
    exact ⟨rfl, hv⟩

theorem readRawString_packet {p : NetworkPacket} (hv : p.Valid) (len : UInt32) :
    (p.readRawString len).packet.data = p.data ∧ (p.readRawString len).packet.Valid := by
  unfold readRawString
  rcases p.checkReadOffset_cases len with ⟨h, hok⟩ | ⟨-, e, herr⟩
  · rw [hok]
    simp only
    split_ifs
    · exact ⟨rfl, hv⟩
    · exact ⟨rfl, h⟩
  · rw [herr]
    exact ⟨rfl, hv⟩

theorem readText_packet {p : NetworkPacket} (hv : p.Valid) (strLen : UInt32) :
    (p.readText strLen).packet.data = p.data ∧ (p.readText strLen).packet.Valid := by
  unfold readText
  split_ifs
  · exact ⟨rfl, hv⟩
  · exact readRawString_packet hv strLen

theorem andThen_packet {p : NetworkPacket} (hv : p.Valid) (checked : UInt32) (width : ℕ)
    (decode : SharedBuffer → Value) (k : NetworkPacket → Outcome Value)
    (hk : ∀ q : NetworkPacket, q.Valid → (k q).packet.data = q.data ∧ (k q).packet.Valid) :
    (((p.readChecked checked width decode).andThen fun _ q => k q).packet.data = p.data) ∧
      ((p.readChecked checked width decode).andThen fun _ q => k q).packet.Valid := by
  have hp := readChecked_packet hv checked width decode
  unfold Outcome.andThen
  cases h : (p.readChecked checked width decode).value with
  | error e => exact hp
  | ok a => exact ⟨(hk _ hp.2).1.trans hp.1, (hk _ hp.2).2⟩

theorem readWide_valid {p : NetworkPacket} (left : UInt16) (dst : List UInt32)
    (h : (p.advance (left.toUInt32 * 2)).Valid) :
    (readWide left.toNat p dst).packet.data = p.data ∧
      (readWide left.toNat p dst).packet.Valid := by
  obtain ⟨hdata, hoff⟩ := readWide_packet left.toNat p dst
  refine ⟨hdata, ?_⟩
  have : UInt32.ofNat (2 * left.toNat) = left.toUInt32 * 2 := by
    rw [Nat.mul_comm, UInt32.ofNat_mul, UInt32.ofNat_uInt16ToNat]
    rfl
  rw [Valid, hdata, hoff, this]
  exact h

/-- No read changes the data or moves beyond it, whatever it throws. -/
theorem read_packet {p : NetworkPacket} (hv : p.Valid) (op : ReadOp) :
    (p.read op).packet.data = p.data ∧ (p.read op).packet.Valid := by
  cases op with
  | field f => exact readChecked_packet hv _ _ _
  | string => exact andThen_packet hv _ _ _ _ fun q hq => readText_packet hq _
  | longString =>
    refine andThen_packet hv _ _ _ _ fun q hq => ?_
    simp only
    split_ifs
    · exact ⟨rfl, hq⟩
    · exact readText_packet hq _
  | wstring =>
    refine andThen_packet hv _ _ _ _ fun q hq => ?_
    simp only
    split_ifs
    · exact ⟨rfl, hq⟩
    · rcases q.checkReadOffset_cases
        ((readU16 (p.bytesFrom p.readOffset)).toUInt32 * 2) with ⟨h, hok⟩ | ⟨-, e, herr⟩
      · rw [hok]
        exact readWide_valid _ _ h
      · rw [herr]
        exact ⟨rfl, hq⟩
  | rawString len => exact readRawString_packet hv len
  | skip count =>
    change (p.skip count).packet.data = p.data ∧ (p.skip count).packet.Valid
    unfold skip
    rcases p.checkReadOffset_cases count with ⟨h, hok⟩ | ⟨-, e, herr⟩
    · rw [hok]
      exact ⟨rfl, h⟩
    · rw [herr]
      exact ⟨rfl, hv⟩

/-- The outcomes of reads one after the other; what a read throws may be caught. -/
def reads (p : NetworkPacket) : List ReadOp → List (Outcome Value)
  | [] => []
  | op :: ops => p.read op :: (p.read op).packet.reads ops

def SafeRun (p : NetworkPacket) : List ReadOp → Prop
  | [] => True
  | op :: ops => op.Safe p ∧ (p.read op).packet.SafeRun ops

theorem reads_within_iff {p : NetworkPacket} (hv : p.Valid) (ops : List ReadOp) :
    (∀ x ∈ p.reads ops, x.Within p.data.length) ↔ p.SafeRun ops := by
  induction ops generalizing p with
  | nil => simp [reads, SafeRun]
  | cons op ops ih =>
    obtain ⟨hdata, hnext⟩ := read_packet hv op
    have htail := ih hnext
    rw [hdata] at htail
    simp only [reads, SafeRun, List.mem_cons, forall_eq_or_imp, read_within_iff hv, htail]

def fourBytes : NetworkPacket := ⟨0, [1, 2, 3, 4], 0, 0, by decide⟩

theorem reads_within_iff_fourBytes :
    fourBytes.Valid ∧ ((∀ x ∈ fourBytes.reads [.field .u16, .field .u16, .string],
      x.Within fourBytes.data.length) ↔ fourBytes.SafeRun [.field .u16, .field .u16, .string]) :=
  ⟨by decide, reads_within_iff (by decide) _⟩

theorem not_reads_within : ¬ ∀ (p : NetworkPacket) (ops : List ReadOp), p.Valid →
    ∀ x ∈ p.reads ops, x.Within p.data.length := by
  intro h
  have hs := h fourBytes [.field .s64] (by decide) _ (List.mem_singleton.mpr rfl)
  have := hs (0, 8) (by decide)
  exact absurd this (by decide)

end NetworkPacket

end Freeminer.Network
