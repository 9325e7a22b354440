import Freeminer.Util.Stream

/-! The JSON-like strings of `util/serialize.cpp`. What is written quoted is read back as it was,
whatever bytes it holds. -/

namespace Freeminer

/-- What a read throws: a `SerializationError` or a `VersionMismatchException` with its text, or an
error of the JSON library. `outOfBounds` is a write past the end that nothing checks. -/
inductive LoadError where
  | serialization (what : ByteString)
  | versionMismatch (what : ByteString)
  | json
  | outOfBounds
  deriving DecidableEq

def hexChar (n : UInt8) : UInt8 := if n < 10 then 48 + n else 87 + n

/-- `hex_digit_decode`: any other character leaves a zero. -/
def hexValue (c : UInt8) : UInt8 :=
  if 48 ≤ c ∧ c ≤ 57 then c - 48
  else if 65 ≤ c ∧ c ≤ 70 then c - 65 + 10
  else if 97 ≤ c ∧ c ≤ 102 then c - 97 + 10
  else 0

/-- What `serializeJsonString` writes for one character. -/
def escape (c : UInt8) : ByteString :=
  if c = 34 then [92, 34]
  else if c = 92 then [92, 92]
  else if c = 8 then [92, 98]
  else if c = 12 then [92, 102]
  else if c = 10 then [92, 110]
  else if c = 13 then [92, 114]
  else if c = 9 then [92, 116]
  else if c < 32 ∨ c = 127 then [92, 117, 48, 48, hexChar (c >>> 4), hexChar (c &&& 15)]
  else [c]

def serializeJsonString (plain : ByteString) : ByteString := 34 :: plain.flatMap escape ++ [34]

/-- The character after a backslash, unless it is `u`. -/
def unescape (c : UInt8) : UInt8 :=
  if c = 98 then 8
  else if c = 102 then 12
  else if c = 110 then 10
  else if c = 114 then 13
  else if c = 116 then 9
  else c

/-- The static `deSerializeJsonString`, between the quotes. -/
def unescapeAll : ByteString → Except LoadError ByteString
  | [] => .ok []
  | [c] =>
    if c = 92 then .error (.serialization (bytes "JSON string ended prematurely")) else .ok [c]
  | c :: c2 :: s =>
    if c ≠ 92 then (c :: ·) <$> unescapeAll (c2 :: s)
    else if c2 = 117 then
      match s with
      | _ :: _ :: h2 :: h3 :: s => ((hexValue h2 <<< 4 ||| hexValue h3) :: ·) <$> unescapeAll s
      | _ => .error (.serialization (bytes "JSON string ended prematurely"))
    else (unescape c2 :: ·) <$> unescapeAll s

/-- Up to the closing quote: what stands between the quotes, and what follows. -/
def grabJsonString (wasBackslash : Bool) : ByteString → Except LoadError (ByteString × ByteString)
  | [] => .error (.serialization (bytes "JSON string ended prematurely"))
  | c :: s =>
    if wasBackslash then do
      let (t, rest) ← grabJsonString false s
      pure (c :: t, rest)
    else if c = 34 then .ok ([], s)
    else do
      let (t, rest) ← grabJsonString (c == 92) s
      pure (c :: t, rest)

def deSerializeJsonString (is : IStream) : Except LoadError (ByteString × IStream) :=
  match is.rest with
  | 34 :: s => do
    let (t, rest) ← grabJsonString false s
    let t ← unescapeAll t
    pure (t, { is with rest })
  | _ => .error (.serialization (bytes "JSON string must start with doublequote"))

/-- `char` is signed: bytes from 128 on are negative. -/
def needsJson (c : UInt8) : Bool := c ≤ 31 || 127 ≤ c || c == 32 || c == 34

def serializeJsonStringIfNeeded (s : ByteString) : ByteString :=
  if s.any needsJson then serializeJsonString s else s

def deSerializeJsonStringIfNeeded (is : IStream) : Except LoadError (ByteString × IStream) :=
  let (c, is) := is.peek
  match c with
  | none => .ok ([], is)
  | some c =>
    if c = 34 then deSerializeJsonString is
    else
      let (tmp, is) := is.getline 32
      .ok (tmp, if is.eof then is else is.unget 32)

/-! ## Round trip -/

variable {c : UInt8} {s rest : ByteString}

theorem forall_byte {P : UInt8 → Prop} (h : ∀ n < 256, P (UInt8.ofNat n)) (c : UInt8) : P c := by
  simpa using h c.toNat c.toNat_lt

theorem hexValue_hexChar : ∀ c : UInt8,
    hexValue (hexChar (c >>> 4)) <<< 4 ||| hexValue (hexChar (c &&& 15)) = c :=
  forall_byte (by decide +kernel)

theorem hexChar_plain : ∀ c : UInt8, hexChar (c >>> 4) ≠ 92 ∧ hexChar (c &&& 15) ≠ 92 ∧
    hexChar (c >>> 4) ≠ 34 ∧ hexChar (c &&& 15) ≠ 34 :=
  forall_byte (by decide +kernel)

theorem newline_notMem_escape : ∀ c : UInt8, 10 ∉ escape c :=
  forall_byte (by decide +kernel)

/-- A character is written as it is, after a backslash, or as the number of a control
character. -/
theorem escape_cases (c : UInt8) :
    (c ≠ 34 ∧ c ≠ 92 ∧ escape c = [c]) ∨
    (∃ x, x ≠ 117 ∧ unescape x = c ∧ escape c = [92, x]) ∨
    escape c = [92, 117, 48, 48, hexChar (c >>> 4), hexChar (c &&& 15)] := by
  unfold escape
  split_ifs with h34 h92 h8 h12 h10 h13 h9 h
  · exact .inr (.inl ⟨34, by decide, h34.symm, rfl⟩)
  · exact .inr (.inl ⟨92, by decide, h92.symm, rfl⟩)
  · exact .inr (.inl ⟨98, by decide, h8.symm, rfl⟩)
  · exact .inr (.inl ⟨102, by decide, h12.symm, rfl⟩)
  · exact .inr (.inl ⟨110, by decide, h10.symm, rfl⟩)
  · exact .inr (.inl ⟨114, by decide, h13.symm, rfl⟩)
  · exact .inr (.inl ⟨116, by decide, h9.symm, rfl⟩)
  · exact .inr (.inr rfl)
  · exact .inl ⟨h34, h92, rfl⟩

theorem unescapeAll_escape (c : UInt8) (t : ByteString) :
    unescapeAll (escape c ++ t) = (c :: ·) <$> unescapeAll t := by
  rcases escape_cases c with ⟨-, h92, h⟩ | ⟨x, hx, hc, h⟩ | h <;> rw [h]
  · cases t <;> rw [List.singleton_append, unescapeAll.eq_def] <;> simp [h92, unescapeAll]
  · rw [List.cons_append, List.singleton_append, unescapeAll.eq_def]
    simp [hx, hc]
  · simp [unescapeAll, hexValue_hexChar]

theorem grabJsonString_escape (c : UInt8) (t : ByteString) :
    grabJsonString false (escape c ++ t) =
      (fun x => (escape c ++ x.1, x.2)) <$> grabJsonString false t := by
  obtain ⟨ha, hb, ha', hb'⟩ := hexChar_plain c
  rcases escape_cases c with ⟨h34, h92, h⟩ | ⟨x, -, -, h⟩ | h <;> rw [h] <;>
    cases ht : grabJsonString false t
  all_goals simp [grabJsonString, beq_eq_false_iff_ne.mpr, *]

theorem unescapeAll_flatMap (s : ByteString) : unescapeAll (s.flatMap escape) = .ok s := by
  induction s with
  | nil => rfl
  | cons c s ih =>
    rw [List.flatMap_cons, unescapeAll_escape, ih]
    rfl

theorem grabJsonString_flatMap (s rest : ByteString) :
    grabJsonString false (s.flatMap escape ++ 34 :: rest) = .ok (s.flatMap escape, rest) := by
  induction s with
  | nil => rfl
  | cons c s ih =>
    rw [List.flatMap_cons, List.append_assoc, grabJsonString_escape, ih]
    rfl

/-- A quoted string is read back, up to its closing quote. -/
theorem deSerializeJsonString_serialize (s rest : ByteString) :
    deSerializeJsonString { rest := serializeJsonString s ++ rest } = .ok (s, { rest }) := by
  have htext : serializeJsonString s ++ rest = 34 :: (s.flatMap escape ++ 34 :: rest) := by
    simp [serializeJsonString]
  unfold deSerializeJsonString
  simp only [htext, grabJsonString_flatMap]
  exact congrArg (fun t => t >>= fun t => pure (t, ({ rest } : IStream))) (unescapeAll_flatMap s)

theorem plain_of_not_any (h : s.any needsJson = false) (hc : c ∈ s) :
    c ≠ 32 ∧ c ≠ 34 ∧ c ≠ 10 := by
  have hneeds : needsJson c = false := by
    simpa using List.any_eq_false.mp h c hc
  refine ⟨?_, ?_, ?_⟩ <;> rintro rfl <;> exact Bool.noConfusion hneeds

theorem newline_notMem_json (s : ByteString) : 10 ∉ serializeJsonStringIfNeeded s := by
  unfold serializeJsonStringIfNeeded
  split_ifs with h
  · simp only [serializeJsonString, List.cons_append, List.mem_cons, List.mem_append,
      List.mem_flatMap, List.not_mem_nil, or_false]
    rintro (h | ⟨c, -, hc⟩ | h)
    · exact absurd h (by decide)
    · exact newline_notMem_escape c hc
    · exact absurd h (by decide)
  · intro h10
    exact (plain_of_not_any (by simpa using h) h10).2.2 rfl

theorem deSerializeJsonStringIfNeeded_plain {c : UInt8} {s : ByteString} (hc : c ≠ 34)
    (h : s.head? = some c) :
    deSerializeJsonStringIfNeeded { rest := s } =
      .ok ((IStream.getline { rest := s } 32).1,
        if (IStream.getline { rest := s } 32).2.eof then (IStream.getline { rest := s } 32).2
        else (IStream.getline { rest := s } 32).2.unget 32) := by
  obtain ⟨t, rfl⟩ : ∃ t, s = c :: t := by
    cases s with
    | nil => exact absurd h (by simp)
    | cons d t => exact ⟨t, by rw [Option.some.inj h]⟩
  simp [deSerializeJsonStringIfNeeded, IStream.peek, IStream.good, hc]

/-- Followed by a blank, a string is read back, and the blank is left. -/
theorem deSerializeJsonStringIfNeeded_blank (s rest : ByteString) :
    deSerializeJsonStringIfNeeded { rest := serializeJsonStringIfNeeded s ++ 32 :: rest } =
      .ok (s, { rest := 32 :: rest }) := by
  unfold serializeJsonStringIfNeeded
  split_ifs with h
  · rw [← deSerializeJsonString_serialize]
    simp [deSerializeJsonStringIfNeeded, IStream.peek, IStream.good, serializeJsonString]
  · have hplain : ∀ c ∈ s, c ≠ 32 ∧ c ≠ 34 ∧ c ≠ 10 := fun c =>
      plain_of_not_any (by simpa using h)
    have hblank : (32 : UInt8) ∉ s := fun h => (hplain _ h).1 rfl
    obtain ⟨c, hc, hhead⟩ : ∃ c, c ≠ 34 ∧ (s ++ 32 :: rest).head? = some c := by
      cases s with
      | nil => exact ⟨32, by decide, rfl⟩
      | cons c s => exact ⟨c, (hplain c List.mem_cons_self).2.1, rfl⟩
    rw [deSerializeJsonStringIfNeeded_plain hc hhead, IStream.getline_delim hblank]
    rfl

/-- At the end of the text, a string is read back, and nothing is left. -/
theorem deSerializeJsonStringIfNeeded_end (s : ByteString) :
    ∃ is, deSerializeJsonStringIfNeeded { rest := serializeJsonStringIfNeeded s } = .ok (s, is) ∧
      is.rest = [] := by
  unfold serializeJsonStringIfNeeded
  split_ifs with h
  · refine ⟨{ rest := [] }, ?_, rfl⟩
    rw [← deSerializeJsonString_serialize s [], List.append_nil]
    simp [deSerializeJsonStringIfNeeded, IStream.peek, IStream.good, serializeJsonString]
  · have hplain : ∀ c ∈ s, c ≠ 32 ∧ c ≠ 34 ∧ c ≠ 10 := fun c =>
      plain_of_not_any (by simpa using h)
    have hblank : (32 : UInt8) ∉ s := fun h => (hplain _ h).1 rfl
    cases s with
    | nil => exact ⟨{ rest := [], eof := true }, rfl, rfl⟩
    | cons c s =>
      have hc := (hplain c List.mem_cons_self).2.1
      rw [deSerializeJsonStringIfNeeded_plain hc rfl, IStream.getline_end hblank]
      exact ⟨_, rfl, rfl⟩

end Freeminer
