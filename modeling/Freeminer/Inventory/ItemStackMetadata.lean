import Freeminer.Inventory.ItemStack
import Freeminer.Lib.HashOrder
import Freeminer.Util.JsonString

/-! `ItemStackMetadata` (`itemstackmetadata.cpp`): the text of a metadata map, and the maps that
are read back from their text as they were. -/

namespace Freeminer.Inventory

open Lib

abbrev MetadataOrder := HashOrder ByteString ByteString

/-- Which texts the JSON library reads as tool capabilities and as a wear bar. -/
structure Json where
  toolCaps : ByteString → Bool
  wearBarParams : ByteString → Bool

/-- `Strfnd::next` with a separator of one character: the text before it, and what is left. -/
def strfndNext (sep : UInt8) (s : ByteString) : ByteString × ByteString :=
  ((cut sep s).1, (cut sep s).2.getD [])

namespace Metadata

def DESERIALIZE_START : UInt8 := 1
def DESERIALIZE_KV_DELIM : UInt8 := 2
def DESERIALIZE_PAIR_DELIM : UInt8 := 3

def TOOLCAP_KEY : ByteString := bytes "tool_capabilities"
def WEAR_BAR_KEY : ByteString := bytes "wear_color"

/-- `getString`, which resolves a value that names another one so many times. -/
def getString (m : Metadata) : ℕ → ByteString → ByteString
  | 0, name => (m.lookup name).getD []
  | n + 1, name =>
    let raw := (m.lookup name).getD []
    if raw.take 2 = bytes "$\x7b" ∧ raw.getLast? = some 125 then
      getString m n ((raw.drop 2).dropLast)
    else raw

def sanitizeString (s : ByteString) : ByteString :=
  s.filter fun c => c ≠ DESERIALIZE_START ∧ c ≠ DESERIALIZE_KV_DELIM ∧ c ≠ DESERIALIZE_PAIR_DELIM

/-- `setString`: the map after it, also where an override that it sets is refused. -/
def setString (m : Metadata) (name var : ByteString) : Metadata :=
  let name := sanitizeString name
  let var := sanitizeString var
  if var = [] then m.erase name else m.insert name var

def pairText (e : Sigma fun _ : ByteString => ByteString) : ByteString :=
  if e.1 ≠ [] ∨ e.2 ≠ [] then
    e.1 ++ DESERIALIZE_KV_DELIM :: (e.2 ++ [DESERIALIZE_PAIR_DELIM])
  else []

def serialize (order : MetadataOrder) (m : Metadata) : ByteString :=
  serializeJsonStringIfNeeded (DESERIALIZE_START :: (order.entries m).flatMap pairText)

/-- The loop of `deSerialize`; every turn takes at least one character. -/
def readPairs : ℕ → ByteString → Metadata → Metadata
  | 0, _, m => m
  | n + 1, s, m =>
    if s = [] then m
    else
      let (name, s) := strfndNext DESERIALIZE_KV_DELIM s
      let (var, s) := strfndNext DESERIALIZE_PAIR_DELIM s
      readPairs n s (m.insert name var)

/-- `updateToolCapabilities` and `updateWearBarParams`, which read the overrides. -/
def updateOverrides (json : Json) (m : Metadata) : Except LoadError Unit :=
  if m.lookup TOOLCAP_KEY ≠ none ∧ json.toolCaps (getString m 2 TOOLCAP_KEY) = false then
    .error .json
  else if m.lookup WEAR_BAR_KEY ≠ none ∧
      json.wearBarParams (getString m 2 WEAR_BAR_KEY) = false then
    .error .json
  else .ok ()

def deSerialize (json : Json) (is : IStream) : Except LoadError (Metadata × IStream) := do
  let (text, is) ← deSerializeJsonStringIfNeeded is
  let m := match text with
    | [] => ∅
    | c :: s =>
      if c = DESERIALIZE_START then readPairs s.length s ∅
      else (∅ : Metadata).insert [] text
  updateOverrides json m
  pure (m, is)

/-! ## Maps that are read back -/

/-- No key and no value holds the character that ends it, and no entry is left out. -/
def Framed (m : Metadata) : Prop :=
  ∀ k v, m.lookup k = some v →
    DESERIALIZE_KV_DELIM ∉ k ∧ DESERIALIZE_PAIR_DELIM ∉ v ∧ (k ≠ [] ∨ v ≠ [])

variable {order : MetadataOrder} {json : Json} {m : Metadata} {k v s : ByteString}
  {l : List (Sigma fun _ : ByteString => ByteString)}

/-- What a loop has read holds no separators, whatever the text. -/
theorem readPairs_delim (n : ℕ) (s : ByteString)
    (hm : ∀ k v, m.lookup k = some v → DESERIALIZE_KV_DELIM ∉ k ∧ DESERIALIZE_PAIR_DELIM ∉ v)
    (h : (readPairs n s m).lookup k = some v) :
    DESERIALIZE_KV_DELIM ∉ k ∧ DESERIALIZE_PAIR_DELIM ∉ v := by
  induction n generalizing s m with
  | zero => exact hm k v h
  | succ n ih =>
    rw [readPairs] at h
    split_ifs at h with hs
    · exact hm k v h
    · refine ih _ (fun k' v' hk => ?_) h
      by_cases hname : k' = (cut DESERIALIZE_KV_DELIM s).1
      · subst hname
        rw [Finmap.lookup_insert, Option.some.injEq] at hk
        exact ⟨notMem_cut _ _, hk ▸ notMem_cut _ _⟩
      · rw [Finmap.lookup_insert_of_ne _ hname] at hk
        exact hm k' v' hk

theorem strfndNext_append {sep : UInt8} (h : sep ∉ k) (s : ByteString) :
    strfndNext sep (k ++ sep :: s) = (k, s) := by
  simp [strfndNext, cut_append_cons h]

theorem readPairs_flatMap (hl : ∀ e ∈ l, DESERIALIZE_KV_DELIM ∉ e.1 ∧ DESERIALIZE_PAIR_DELIM ∉ e.2 ∧
    (e.1 ≠ [] ∨ e.2 ≠ [])) (n : ℕ) (hn : (l.flatMap pairText).length ≤ n) (m : Metadata) :
    readPairs n (l.flatMap pairText) m = insertAll l m := by
  induction l generalizing n m with
  | nil => cases n <;> simp [readPairs, insertAll]
  | cons e l ih =>
    obtain ⟨hk, hv, hne⟩ := hl e List.mem_cons_self
    have htext : (e :: l).flatMap pairText = e.1 ++ DESERIALIZE_KV_DELIM ::
        (e.2 ++ DESERIALIZE_PAIR_DELIM :: l.flatMap pairText) := by
      simp [pairText, hne]
    rw [htext] at hn ⊢
    simp only [List.length_append, List.length_cons] at hn
    cases n with
    | zero => omega
    | succ n =>
      rw [readPairs, if_neg (by simp)]
      simp only [strfndNext_append hk, strfndNext_append hv]
      exact ih (fun e he => hl e (List.mem_cons_of_mem _ he)) n (by omega) _

/-- What `deSerialize` makes of the text of a map. -/
def readBack (order : MetadataOrder) (m : Metadata) : Metadata :=
  let s := (order.entries m).flatMap pairText
  readPairs s.length s ∅

theorem flatMap_pairText (l : List (Sigma fun _ : ByteString => ByteString)) :
    l.flatMap pairText = (l.filter fun e => e.1 ≠ [] ∨ e.2 ≠ []).flatMap pairText := by
  induction l with
  | nil => rfl
  | cons e l ih =>
    rw [List.flatMap_cons, List.filter_cons, ih]
    split_ifs with h
    · rw [List.flatMap_cons]
    · have h : ¬(e.1 ≠ [] ∨ e.2 ≠ []) := by simpa using h
      rw [pairText, if_neg h, List.nil_append]

/-- Without separators in them, the entries that are not blank are read back. -/
theorem lookup_readBack (order : MetadataOrder) (hm : ∀ k v, m.lookup k = some v →
    DESERIALIZE_KV_DELIM ∉ k ∧ DESERIALIZE_PAIR_DELIM ∉ v) (k : ByteString) :
    (readBack order m).lookup k = (m.lookup k).filter fun v => k ≠ [] ∨ v ≠ [] := by
  set l := (order.entries m).filter fun e => e.1 ≠ [] ∨ e.2 ≠ [] with hl
  have hmem : ∀ e ∈ l, DESERIALIZE_KV_DELIM ∉ e.1 ∧ DESERIALIZE_PAIR_DELIM ∉ e.2 ∧
      (e.1 ≠ [] ∨ e.2 ≠ []) := by
    intro e he
    obtain ⟨he, hne⟩ := List.mem_filter.mp he
    obtain ⟨h1, h2⟩ := hm e.1 e.2 (order.mem_entries.mp he)
    exact ⟨h1, h2, by simpa using hne⟩
  have hnodup : l.NodupKeys := (order.nodupKeys m).sublist List.filter_sublist
  dsimp only [readBack]
  rw [flatMap_pairText, ← hl, readPairs_flatMap hmem _ le_rfl, lookup_insertAll hnodup,
    Finmap.lookup_empty, Option.or_none]
  ext v
  rw [← Option.mem_def, List.mem_dlookup_iff hnodup, hl, List.mem_filter, order.mem_entries,
    Option.filter_eq_some_iff]

/-- A map is read back as it was exactly where it is framed. -/
theorem readBack_eq_iff (order : MetadataOrder) : readBack order m = m ↔ Framed m := by
  constructor
  · intro h k v hk
    have hdelim : ∀ k v, m.lookup k = some v →
        DESERIALIZE_KV_DELIM ∉ k ∧ DESERIALIZE_PAIR_DELIM ∉ v := fun k v hk =>
      readPairs_delim _ _ (by simp) ((congrArg (Finmap.lookup k) h).trans hk)
    have hback := lookup_readBack order hdelim k
    rw [h, hk, eq_comm, Option.filter_eq_some_iff] at hback
    exact ⟨(hdelim k v hk).1, (hdelim k v hk).2, by simpa using hback.2⟩
  · intro h
    refine Finmap.ext_lookup fun k => ?_
    rw [lookup_readBack order fun k v hk => ⟨(h k v hk).1, (h k v hk).2.1⟩]
    cases hk : m.lookup k with
    | none => rfl
    | some v => exact Option.filter_eq_some_iff.mpr ⟨rfl, by simpa using (h k v hk).2.2⟩

theorem deSerialize_end (order : MetadataOrder) (json : Json) (m : Metadata) :
    ∃ is, deSerialize json { rest := serialize order m } =
      (updateOverrides json (readBack order m)).map fun _ => (readBack order m, is) := by
  obtain ⟨is, h, -⟩ := deSerializeJsonStringIfNeeded_end
    (DESERIALIZE_START :: (order.entries m).flatMap pairText)
  exact ⟨is, by unfold deSerialize serialize; rw [h]; rfl⟩

theorem updateOverrides_empty (json : Json) : updateOverrides json ∅ = .ok () := by
  simp [updateOverrides]

theorem deSerialize_of_rest (json : Json) {is : IStream} (h : is.rest = []) :
    ∃ is', deSerialize json is = .ok (∅, is') := by
  have hread : ∃ is', deSerializeJsonStringIfNeeded is = .ok ([], is') := by
    unfold deSerializeJsonStringIfNeeded IStream.peek
    rw [h]
    split_ifs <;> exact ⟨_, rfl⟩
  obtain ⟨is', his⟩ := hread
  refine ⟨is', ?_⟩
  unfold deSerialize
  rw [his]
  exact congrArg (fun x => x >>= fun _ => pure (∅, is')) (updateOverrides_empty json)

theorem readBack_empty (order : MetadataOrder) : readBack order ∅ = ∅ :=
  (readBack_eq_iff order).mpr (by simp [Framed])

theorem notMem_sanitizeString (s : ByteString) : DESERIALIZE_KV_DELIM ∉ sanitizeString s ∧
    DESERIALIZE_PAIR_DELIM ∉ sanitizeString s := by
  simp [sanitizeString]

/-- `setString` builds only maps that are read back. -/
theorem Framed.setString (h : Framed m) (name var : ByteString) :
    Framed (m.setString name var) := by
  intro k v hk
  unfold Metadata.setString at hk
  dsimp only at hk
  split_ifs at hk with hvar
  · by_cases hname : k = sanitizeString name
    · rw [hname, Finmap.lookup_erase] at hk
      exact absurd hk (by simp)
    · rw [Finmap.lookup_erase_ne hname] at hk
      exact h k v hk
  · by_cases hname : k = sanitizeString name
    · rw [hname, Finmap.lookup_insert, Option.some.injEq] at hk
      subst hk
      exact ⟨hname ▸ (notMem_sanitizeString name).1, (notMem_sanitizeString var).2, .inr hvar⟩
    · rw [Finmap.lookup_insert_of_ne _ hname] at hk
      exact h k v hk

/-- Whatever is set is read back, if the overrides can be. -/
theorem deSerialize_setStrings (order : MetadataOrder) (json : Json)
    (calls : List (ByteString × ByteString)) :
    ∃ is, deSerialize json
        { rest := serialize order (calls.foldl (fun m c => m.setString c.1 c.2) ∅) } =
      (updateOverrides json (calls.foldl (fun m c => m.setString c.1 c.2) ∅)).map fun _ =>
        (calls.foldl (fun m c => m.setString c.1 c.2) ∅, is) := by
  have hframed : Framed (calls.foldl (fun m c => m.setString c.1 c.2) ∅) :=
    List.foldlRecOn calls _ (by simp [Framed]) fun m h c _ => h.setString c.1 c.2
  have hend := deSerialize_end order json (calls.foldl (fun m c => m.setString c.1 c.2) ∅)
  rwa [(readBack_eq_iff order).mpr hframed] at hend

end Metadata

end Freeminer.Inventory
