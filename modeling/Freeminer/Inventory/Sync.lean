import Freeminer.Inventory.SyncText

/-! What a client predicts of the moves and drops in its own inventory (`clientApply`), and that it
touches the lists that the action names only. -/

namespace Freeminer.Inventory

open Lib ItemStack

variable {ρ : Type} [DecidableEq ρ] {idef : ItemDefManager} {i : ℕ} {count : UInt32}

namespace Lists

variable {lists lists' : Lists ρ} {src dest : ρ}

def Same (src dest : ρ) (lists lists' : Lists ρ) : Prop :=
  ∀ r, r ≠ src → r ≠ dest → lists' r = lists r

omit [DecidableEq ρ] in
theorem Same.refl (src dest : ρ) (lists : Lists ρ) : Same src dest lists lists := fun _ _ _ => rfl

omit [DecidableEq ρ] in
theorem Same.trans {lists'' : Lists ρ} (h : Same src dest lists lists')
    (h' : Same src dest lists' lists'') : Same src dest lists lists'' :=
  fun r hsrc hdest => (h' r hsrc hdest).trans (h r hsrc hdest)

theorem same_update {r : ρ} (hr : r = src ∨ r = dest) (lists : Lists ρ) (l : ItemList) :
    Same src dest lists (Function.update lists r l) := by
  intro r' hsrc hdest
  apply Function.update_of_ne
  rintro rfl
  exact hr.elim hsrc hdest

theorem same_changeItem {r : ρ} (hr : r = src ∨ r = dest) (lists : Lists ρ) (i : ℕ)
    (newitem : ItemStack) : Same src dest lists (lists.changeItem r i newitem).2 :=
  same_update hr lists _

theorem same_addItemAt {newitem left : ItemStack}
    (h : lists.addItemAt idef dest i newitem = .ok (left, lists')) :
    Same src dest lists lists' := by
  obtain ⟨r, -, h⟩ := bind_eq_ok.mp h
  obtain ⟨-, rfl⟩ := Prod.mk.inj (Except.ok.inj h)
  exact same_update (.inr rfl) lists _

theorem same_addItem {newitem left : ItemStack}
    (h : lists.addItem idef dest newitem = .ok (left, lists')) : Same src dest lists lists' := by
  obtain ⟨r, -, h⟩ := bind_eq_ok.mp h
  obtain ⟨-, rfl⟩ := Prod.mk.inj (Except.ok.inj h)
  exact same_update (.inr rfl) lists _

theorem same_takeSource {taken : ItemStack}
    (h : lists.takeSource src i count = .ok (taken, lists')) : Same src dest lists lists' := by
  unfold takeSource at h
  split_ifs at h
  · have hchange : Same src dest lists (lists.changeItem src i {}).2 :=
      same_changeItem (.inl rfl) lists i {}
    rwa [Except.ok.inj h] at hchange
  · obtain ⟨r, -, h⟩ := bind_eq_ok.mp h
    obtain ⟨-, rfl⟩ := Prod.mk.inj (Except.ok.inj h)
    exact same_update (.inl rfl) lists _

theorem same_moveItem {destI : ℕ} {swapIfNeeded : Bool} {m : Moved ρ}
    (h : lists.moveItem idef src i dest destI count swapIfNeeded = .ok m) :
    Same src dest lists m.lists := by
  unfold moveItem at h
  split_ifs at h
  · obtain rfl := Except.ok.inj h
    exact .refl _ _ _
  obtain ⟨⟨moved, lists₁⟩, htake, h⟩ := bind_eq_ok.mp h
  obtain ⟨⟨leftover, lists₂⟩, hadd, h⟩ := bind_eq_ok.mp h
  have hsame := (same_takeSource htake).trans (same_addItemAt hadd)
  dsimp only at h
  split_ifs at h
  · obtain rfl := Except.ok.inj h
    exact hsame
  obtain ⟨moved₁, -, h⟩ := bind_eq_ok.mp h
  obtain ⟨item, -, h⟩ := bind_eq_ok.mp h
  obtain ⟨leftover₁, -, h⟩ := bind_eq_ok.mp h
  have hsame := hsame.trans (same_changeItem (.inl rfl) lists₂ i leftover₁)
  split_ifs at h
  · obtain rfl := Except.ok.inj h
    exact ((hsame.trans (same_changeItem (.inl rfl) _ _ _)).trans
      (same_changeItem (.inr rfl) _ _ _)).trans (same_changeItem (.inl rfl) _ _ _)
  · obtain rfl := Except.ok.inj h
    exact hsame

theorem same_moveItemSomewhere
    (h : lists.moveItemSomewhere idef src i dest count = .ok lists') :
    Same src dest lists lists' := by
  obtain ⟨⟨item1, lists₁⟩, htake, h⟩ := bind_eq_ok.mp h
  have hsame : Same src dest lists lists₁ := same_takeSource htake
  dsimp only at h
  split_ifs at h
  · obtain rfl := Except.ok.inj h
    exact hsame
  obtain ⟨⟨leftover, lists₂⟩, hadd, h⟩ := bind_eq_ok.mp h
  have hsame := hsame.trans (same_addItem hadd)
  dsimp only at h
  split_ifs at h
  · obtain rfl := Except.ok.inj h
    exact hsame
  obtain ⟨item, -, h⟩ := bind_eq_ok.mp h
  obtain ⟨leftover₁, -, h⟩ := bind_eq_ok.mp h
  obtain rfl := Except.ok.inj h
  exact hsame.trans (same_changeItem (.inl rfl) lists₂ i leftover₁)

end Lists

/-- An action whose inventories are both the client's own. -/
inductive Prediction where
  | move (fromList : ByteString) (fromI : ℕ) (toList : ByteString) (toI : ℕ) (count : UInt16)
  | moveSomewhere (fromList : ByteString) (fromI : ℕ) (toList : ByteString) (count : UInt16)
  | drop (fromList : ByteString) (fromI : ℕ) (count : UInt16)

def Prediction.lists : Prediction → List ByteString
  | .move fromList _ toList _ _ => [fromList, toList]
  | .moveSomewhere fromList _ toList _ => [fromList, toList]
  | .drop fromList _ _ => [fromList]

namespace InventoryLists

variable {inv inv' : InventoryLists} {name : ByteString}

def slots (inv : InventoryLists) : Lists ℕ := fun k => ((inv[k]?).map InventoryList.items).getD []

def withSlots (inv : InventoryLists) (lists : Lists ℕ) : InventoryLists :=
  inv.mapIdx fun k l => { l with items := lists k }

/-- `clientApply`; nothing is predicted where a list is missing. -/
def clientApply (idef : ItemDefManager) (inv : InventoryLists) :
    Prediction → Except Fault InventoryLists
  | .move fromList fromI toList toI count =>
    match inv.getListIndex fromList, inv.getListIndex toList with
    | some src, some dest =>
      (fun m => inv.withSlots m.lists) <$>
        inv.slots.moveItem idef src fromI dest toI count.toUInt32 true
    | _, _ => .ok inv
  | .moveSomewhere fromList fromI toList count =>
    match inv.getListIndex fromList, inv.getListIndex toList with
    | some src, some dest =>
      inv.withSlots <$> inv.slots.moveItemSomewhere idef src fromI dest count.toUInt32
    | _, _ => .ok inv
  | .drop fromList fromI count =>
    match inv.getListIndex fromList with
    | some src => (fun r => inv.withSlots r.2) <$> inv.slots.takeSource src fromI count.toUInt32
    | none => .ok inv

theorem map_name_withSlots (inv : InventoryLists) (lists : Lists ℕ) :
    (inv.withSlots lists).map InventoryList.name = inv.map InventoryList.name := by
  apply List.ext_getElem? fun k => ?_
  change ((inv.mapIdx _).map InventoryList.name)[k]? = _
  rw [List.getElem?_map, List.getElem?_map, List.getElem?_mapIdx, Option.map_map]
  rfl

/-- A prediction keeps the names, and the lists of other names. -/
structure Ahead (names : List ByteString) (inv inv' : InventoryLists) : Prop where
  name : inv'.map InventoryList.name = inv.map InventoryList.name
  list : ∀ l : InventoryList, l.name ∉ names → (l ∈ inv' ↔ l ∈ inv)

theorem Ahead.refl (names : List ByteString) (inv : InventoryLists) : Ahead names inv inv :=
  ⟨rfl, fun _ _ => Iff.rfl⟩

theorem ahead_withSlots {names : List ByteString} {src dest : ℕ} {lists : Lists ℕ}
    {lsrc ldest : InventoryList} (hsrc : inv[src]? = some lsrc) (hdest : inv[dest]? = some ldest)
    (hsrcname : lsrc.name ∈ names) (hdestname : ldest.name ∈ names)
    (h : Lists.Same src dest inv.slots lists) : Ahead names inv (inv.withSlots lists) := by
  refine ⟨map_name_withSlots inv lists, fun l hl => ?_⟩
  have hget : ∀ (k : ℕ) (m : InventoryList), inv[k]? = some m → m.name ∉ names →
      (inv.withSlots lists)[k]? = some m := by
    intro k m hm hname
    have hk : lists k = m.items := by
      rw [h k, InventoryLists.slots, hm]
      · rfl
      · rintro rfl
        exact hname (Option.some.inj (hsrc.symm.trans hm) ▸ hsrcname)
      · rintro rfl
        exact hname (Option.some.inj (hdest.symm.trans hm) ▸ hdestname)
    rw [withSlots, List.getElem?_mapIdx, hm, Option.map_some, hk]
  constructor
  · intro hmem
    obtain ⟨k, hk⟩ := List.mem_iff_getElem?.mp hmem
    have hk' := hk
    rw [withSlots, List.getElem?_mapIdx, Option.map_eq_some_iff] at hk'
    obtain ⟨m, hm, rfl⟩ := hk'
    have hsame := hget k m hm hl
    rw [← Option.some.inj (hsame.symm.trans hk)]
    exact List.mem_of_getElem? hm
  · intro hmem
    obtain ⟨k, hk⟩ := List.mem_iff_getElem?.mp hmem
    exact List.mem_of_getElem? (hget k l hk hl)

theorem ahead_clientApply {p : Prediction} (h : inv.clientApply idef p = .ok inv') :
    Ahead p.lists inv inv' := by
  cases p with
  | move fromList fromI toList toI count =>
    rw [clientApply] at h
    cases hsrc : inv.getListIndex fromList with
    | none =>
      rw [hsrc] at h
      exact Except.ok.inj h ▸ .refl _ _
    | some src =>
      cases hdest : inv.getListIndex toList with
      | none =>
        rw [hsrc, hdest] at h
        exact Except.ok.inj h ▸ .refl _ _
      | some dest =>
        rw [hsrc, hdest] at h
        obtain ⟨m, hmove, h⟩ := bind_eq_ok.mp h
        obtain rfl := Except.ok.inj h
        obtain ⟨lsrc, hlsrc, rfl⟩ := name_of_getListIndex hsrc
        obtain ⟨ldest, hldest, rfl⟩ := name_of_getListIndex hdest
        exact ahead_withSlots hlsrc hldest (by simp [Prediction.lists])
          (by simp [Prediction.lists]) (Lists.same_moveItem hmove)
  | moveSomewhere fromList fromI toList count =>
    rw [clientApply] at h
    cases hsrc : inv.getListIndex fromList with
    | none =>
      rw [hsrc] at h
      exact Except.ok.inj h ▸ .refl _ _
    | some src =>
      cases hdest : inv.getListIndex toList with
      | none =>
        rw [hsrc, hdest] at h
        exact Except.ok.inj h ▸ .refl _ _
      | some dest =>
        rw [hsrc, hdest] at h
        obtain ⟨lists, hmove, h⟩ := bind_eq_ok.mp h
        obtain rfl := Except.ok.inj h
        obtain ⟨lsrc, hlsrc, rfl⟩ := name_of_getListIndex hsrc
        obtain ⟨ldest, hldest, rfl⟩ := name_of_getListIndex hdest
        exact ahead_withSlots hlsrc hldest (by simp [Prediction.lists])
          (by simp [Prediction.lists]) (Lists.same_moveItemSomewhere hmove)
  | drop fromList fromI count =>
    rw [clientApply] at h
    cases hsrc : inv.getListIndex fromList with
    | none =>
      rw [hsrc] at h
      exact Except.ok.inj h ▸ .refl _ _
    | some src =>
      rw [hsrc] at h
      obtain ⟨⟨taken, lists⟩, htake, h⟩ := bind_eq_ok.mp h
      obtain rfl := Except.ok.inj h
      obtain ⟨lsrc, hlsrc, rfl⟩ := name_of_getListIndex hsrc
      exact ahead_withSlots hlsrc hlsrc (by simp [Prediction.lists]) (by simp [Prediction.lists])
        (Lists.same_takeSource htake)

end InventoryLists

/-! A player's inventory on the server and the copy of its client: the server changes its own and sends
what is marked, the client moves items ahead of the server. When the copy is the inventory again. -/

/-- The item definitions of both sides, and what reading a text takes. -/
structure SyncEnv where
  uninit : Uninit
  json : Json
  serverItems : ItemDefManager
  clientItems : ItemDefManager

structure SyncState where
  server : TrackedInventory
  client : InventoryLists
  /-- `m_inventory_from_server` -/
  fromServer : Option InventoryLists := none
  /-- The texts on their way to the client, and the actions on their way to the server. -/
  toClient : List ByteString := []
  toServer : List Prediction := []

inductive SyncStep where
  | mutate (m : TrackedInventory.Mutation)
  /-- `SendInventory`, in full for old clients. -/
  | send (incremental : Bool) (order : ℕ → ℕ → MetadataOrder)
  | receive
  | predict (p : Prediction)
  /-- What `handleCommand_InventoryAction` marks; what the action does are mutations. -/
  | handle
  /-- The client goes back to what it received last. -/
  | restore

variable (env : SyncEnv)

def SyncEnv.read (inv : InventoryLists) (text : ByteString) : Except LoadError InventoryLists :=
  InventoryLists.deSerialize env.uninit env.json (some env.clientItems) inv text

def SyncState.sendInventory (s : SyncState) (incremental : Bool) (order : ℕ → ℕ → MetadataOrder) :
    SyncState :=
  { s with
    server := s.server.setModified false
    toClient := s.toClient ++ [s.server.serialize order incremental] }

/-- The state after a step; an assertion that fails, or a text that is not read, is none. -/
def SyncState.next (s : SyncState) : SyncStep → Option SyncState
  | .mutate m =>
    (s.server.apply env.serverItems m).toOption.map fun server => { s with server := server }
  | .send incremental order => some (s.sendInventory incremental order)
  | .receive =>
    match s.toClient with
    | [] => none
    | text :: toClient =>
      (env.read s.client text).toOption.map fun inv =>
        { s with client := inv, fromServer := some inv, toClient := toClient }
  | .predict p =>
    (s.client.clientApply env.clientItems p).toOption.map fun inv =>
      { s with client := inv, toServer := s.toServer ++ [p] }
  | .handle =>
    match s.toServer with
    | [] => none
    | p :: toServer => some { s with server := s.server.markLists p.lists, toServer := toServer }
  | .restore => s.fromServer.map fun inv => { s with client := inv }

/-- A client that has just joined: the whole inventory is on its way. -/
def joined (server : TrackedInventory) (client : InventoryLists) (order : ℕ → ℕ → MetadataOrder) :
    SyncState :=
  SyncState.sendInventory { server, client } false order

/-- Where names are distinct and the first text can be read. -/
structure Joins (server : TrackedInventory) (client : InventoryLists) : Prop where
  serverNames : server.Distinct
  clientNames : client.Distinct
  sendable : server.Sendable env.json (some env.clientItems) false

def inventorySync : Lts SyncState SyncStep where
  init s := ∃ server client order, Joins env server client ∧ s = joined server client order
  step s a s' := s.next env a = some s'

/-- A list that is not marked is assigned no other one, names stay distinct, and what is sent can be
read as it was written. -/
def SyncAllowed (s : SyncState) : SyncStep → Prop
  | .mutate m => m.Marked s.server ∧ m.KeepsNames s.server
  | .send incremental _ => s.server.Sendable env.json (some env.clientItems) incremental
  | _ => True

structure Converges (s : SyncState) : Prop where
  /-- The next text can be read. -/
  reads : ∀ text toClient, s.toClient = text :: toClient → ∃ inv, env.read s.client text = .ok inv
  /-- With nothing on its way and nothing to send, the lists are the same, by name. -/
  same : s.toClient = [] → s.toServer = [] → s.server.checkModified = false →
    ∀ l, l ∈ s.client ↔ l ∈ s.server.lists.map TrackedList.list
  distinct : s.client.Distinct

/-! ### The invariant -/

def SyncState.ahead (s : SyncState) : Set ByteString := {n | ∃ p ∈ s.toServer, n ∈ p.lists}

def Delivers (text : ByteString) (m : Message ByteString InventoryList) : Prop :=
  ∀ inv : InventoryLists, inv.Distinct → ∃ inv' : InventoryLists, env.read inv text = .ok inv' ∧
    inv'.Distinct ∧ inv'.getList = fun name => (m name).apply (inv.getList name)

/-- A copy is what the server has, after the messages. -/
structure CopyOf (s : SyncState) (messages : List (Message ByteString InventoryList))
    (inv : InventoryLists) : Prop where
  distinct : inv.Distinct
  synced : Synced s.server.original s.ahead (replay inv.getList messages)

structure SyncInv (s : SyncState) : Prop where
  server : s.server.Distinct
  copies : ∃ messages, List.Forall₂ (Delivers env) s.toClient messages ∧
    CopyOf s messages s.client ∧ ∀ inv, s.fromServer = some inv → CopyOf s messages inv

variable {env} {s s' : SyncState} {messages : List (Message ByteString InventoryList)}
  {inv inv' : InventoryLists} {server : TrackedInventory} {incremental : Bool}

theorem next_receive {text : ByteString} {toClient : List ByteString}
    (htexts : s.toClient = text :: toClient) (hread : env.read s.client text = .ok inv) :
    s.next env .receive =
      some { s with client := inv, fromServer := some inv, toClient := toClient } := by
  rw [SyncState.next, htexts]
  dsimp only
  rw [hread]
  rfl

theorem delivers_serialize (order : ℕ → ℕ → MetadataOrder) (hd : server.Distinct)
    (hs : server.Sendable env.json (some env.clientItems) incremental) :
    Delivers env (server.serialize order incremental)
      (TrackedInventory.message incremental server.lists) := by
  intro inv hinv
  obtain ⟨inv', hread, hdistinct, hlist⟩ :=
    InventoryLists.deSerialize_serialize_tracked env.uninit env.json (some env.clientItems) order hd
      hs hinv
  exact ⟨inv', hread, hdistinct, funext hlist⟩

/-- A text says what makes a copy of the clean lists one of all lists. -/
theorem describes_message (hd : server.Distinct) (incremental : Bool) :
    Describes (TrackedInventory.message incremental server.lists) server.original
      (server.setModified false).original where
  clean name l hl := by
    obtain ⟨t', ht', -, heq⟩ := hl
    obtain ⟨t, ht, rfl⟩ := List.mem_map.mp ht'
    obtain ⟨rfl, rfl⟩ := Prod.mk.inj heq
    have hfind : server.lists.find? (fun l => decide (l.name = t.name)) = some t :=
      find?_of_nodup hd ht
    change TrackedInventory.message incremental server.lists t.name = .full t.list ∨
      TrackedInventory.message incremental server.lists t.name = .keep ∧ _
    unfold TrackedInventory.message
    rw [hfind]
    dsimp only
    by_cases hfull : TrackedInventory.InFull incremental t
    · exact .inl (if_pos hfull)
    · refine .inr ⟨if_neg hfull, t, ht, ?_, rfl⟩
      by_contra hdirty
      exact hfull (.inr (by simpa using hdirty))
  gone name hname := by
    unfold TrackedInventory.message
    rw [List.find?_eq_none.mpr]
    intro t ht heq
    apply hname
    change name ∈ (server.lists.map _).map _
    rw [List.map_map]
    exact List.mem_map.mpr ⟨t, ht, of_decide_eq_true heq⟩

theorem CopyOf.mono (h : CopyOf s messages inv) (hs : s'.ahead = s.ahead)
    (hkept : s.server.Kept s'.server) : CopyOf s' messages inv where
  distinct := h.distinct
  synced := hs ▸ h.synced.marks hkept.clean hkept.gone

theorem CopyOf.send (h : CopyOf s messages inv) (hd : s.server.Distinct)
    (order : ℕ → ℕ → MetadataOrder) :
    CopyOf (s.sendInventory incremental order)
      (messages ++ [TrackedInventory.message incremental s.server.lists]) inv where
  distinct := h.distinct
  synced := h.synced.send (describes_message hd incremental)

theorem CopyOf.handle {p : Prediction} {toServer : List Prediction} (h : CopyOf s messages inv)
    (hd : s.server.Distinct) (hp : s.toServer = p :: toServer) :
    CopyOf { s with server := s.server.markLists p.lists, toServer := toServer } messages inv := by
  obtain ⟨-, hdirty, hlists⟩ := TrackedInventory.markLists_spec hd p.lists
  refine ⟨h.distinct, h.synced.catchUp ?_ fun hm => ?_⟩
  · intro name l hl
    obtain ⟨t, ht, hclean, heq⟩ := hl
    obtain ⟨hmem, hname⟩ := hlists t ht hclean
    refine ⟨⟨t, hmem, hclean, heq⟩, fun hahead => ?_⟩
    obtain ⟨q, hq, hnameq⟩ := hahead
    rw [(Prod.mk.inj heq).1] at hnameq ⊢
    rw [hp] at hq
    rcases List.mem_cons.mp hq with rfl | hq
    · exact absurd hnameq hname
    · exact ⟨q, hq, hnameq⟩
  · rw [TrackedInventory.not_modified_iff, hdirty] at hm
    cases hm.1

/-- A client that runs ahead, or does not. -/
theorem CopyOf.predict {p : Prediction} (h : CopyOf s messages inv)
    (hahead : InventoryLists.Ahead p.lists inv inv') (client : InventoryLists) :
    CopyOf { s with client := client, toServer := s.toServer ++ [p] } messages inv' := by
  have hdistinct : inv'.Distinct := by
    unfold InventoryLists.Distinct
    rw [hahead.name]
    exact h.distinct
  refine ⟨hdistinct, h.synced.runAhead ?_ ?_ ?_⟩
  · intro n hn
    obtain ⟨q, hq, hname⟩ := hn
    exact ⟨q, List.mem_append_left _ hq, hname⟩
  · intro n hn
    apply InventoryLists.getList_congr hdistinct h.distinct
    rintro l rfl
    apply hahead.list
    exact fun hmem => hn ⟨p, List.mem_append_right _ (List.mem_singleton_self p), hmem⟩
  · intro n hn
    rw [InventoryLists.getList_eq_none] at hn ⊢
    rwa [hahead.name]

theorem SyncInv.joined (h : Joins env server inv) (order : ℕ → ℕ → MetadataOrder) :
    SyncInv env (joined server inv order) := by
  have hmodified : Synced ⟨∅, ∅, True⟩ ∅ (replay inv.getList []) :=
    ⟨fun _ _ hk => absurd hk (Set.notMem_empty _), fun hm => absurd trivial hm⟩
  refine ⟨?_, [TrackedInventory.message false server.lists],
    .cons (delivers_serialize order h.serverNames h.sendable) .nil, ?_, nofun⟩
  · change ((server.lists.map _).map _).Nodup
    rw [List.map_map]
    exact h.serverNames
  · refine ⟨h.clientNames, ?_⟩
    have hfull : ∀ name, TrackedInventory.message false server.lists name ≠ .keep := by
      intro name
      unfold TrackedInventory.message
      cases server.lists.find? fun l => decide (l.name = name) with
      | none => nofun
      | some t =>
        dsimp only
        rw [if_pos (.inl rfl)]
        nofun
    have hdescribes := describes_message h.serverNames false
    have hwhole : Describes (TrackedInventory.message false server.lists) ⟨∅, ∅, True⟩
        (server.setModified false).original :=
      ⟨fun k v hk => (hdescribes.clean k v hk).elim .inl fun hkeep => absurd hkeep.1 (hfull k),
        hdescribes.gone⟩
    have hsend := hmodified.send hwhole
    rw [List.nil_append] at hsend
    exact hsend.runAhead (Set.empty_subset _) (fun _ _ => rfl) fun _ hk => hk

theorem SyncInv.step (h : SyncInv env s) {a : SyncStep} (hok : SyncAllowed env s a)
    (hs : s.next env a = some s') : SyncInv env s' := by
  obtain ⟨messages, hdelivers, hclient, hfrom⟩ := h.copies
  cases a with
  | mutate m =>
    obtain ⟨server, hserver, rfl⟩ := Option.map_eq_some_iff.mp hs
    have happly := ok_of_toOption hserver
    have hkept := TrackedInventory.kept_apply happly hok.1
    exact ⟨h.server.apply happly hok.2, messages, hdelivers, hclient.mono rfl hkept,
      fun inv hinv => (hfrom inv hinv).mono rfl hkept⟩
  | send incremental order =>
    obtain rfl := Option.some.inj hs
    refine ⟨?_, messages ++ [TrackedInventory.message incremental s.server.lists],
      List.rel_append hdelivers (.cons (delivers_serialize order h.server hok) .nil),
      hclient.send h.server order, fun inv hinv => (hfrom inv hinv).send h.server order⟩
    change ((s.server.lists.map _).map _).Nodup
    rw [List.map_map]
    exact h.server
  | receive =>
    rw [SyncState.next] at hs
    cases htexts : s.toClient with
    | nil =>
      rw [htexts] at hs
      cases hs
    | cons text toClient =>
      rw [htexts] at hs hdelivers
      cases hdelivers with
      | cons hread hrest =>
        rename_i m messages
        obtain ⟨inv, hok, hdistinct, hlist⟩ := hread s.client hclient.distinct
        dsimp only at hs
        rw [hok] at hs
        obtain rfl := Option.some.inj hs
        have hsynced := hclient.synced
        change Synced _ _ (replay (fun name => (m name).apply (s.client.getList name)) messages)
          at hsynced
        rw [← hlist] at hsynced
        refine ⟨h.server, messages, hrest, ⟨hdistinct, hsynced⟩, fun inv' hinv' => ?_⟩
        obtain rfl := Option.some.inj hinv'
        exact ⟨hdistinct, hsynced⟩
  | predict p =>
    obtain ⟨inv, hinv, rfl⟩ := Option.map_eq_some_iff.mp hs
    exact ⟨h.server, messages, hdelivers,
      hclient.predict (InventoryLists.ahead_clientApply (ok_of_toOption hinv)) inv,
      fun inv' hinv' => (hfrom inv' hinv').predict (.refl _ _) inv⟩
  | handle =>
    rw [SyncState.next] at hs
    cases hactions : s.toServer with
    | nil =>
      rw [hactions] at hs
      cases hs
    | cons p toServer =>
      rw [hactions] at hs
      obtain rfl := Option.some.inj hs
      exact ⟨(TrackedInventory.markLists_spec h.server p.lists).1, messages, hdelivers,
        hclient.handle h.server hactions, fun inv hinv => (hfrom inv hinv).handle h.server hactions⟩
  | restore =>
    obtain ⟨inv, hinv, rfl⟩ := Option.map_eq_some_iff.mp hs
    have hinv' := hfrom inv hinv
    exact ⟨h.server, messages, hdelivers, ⟨hinv'.distinct, hinv'.synced⟩, fun inv' hinv' =>
      ⟨(hfrom inv' hinv').distinct, (hfrom inv' hinv').synced⟩⟩

theorem SyncInv.converges (h : SyncInv env s) : Converges env s := by
  obtain ⟨messages, hdelivers, hclient, -⟩ := h.copies
  refine ⟨fun text toClient htexts => ?_, fun hclear hidle hclean l => ?_, hclient.distinct⟩
  · rw [htexts] at hdelivers
    cases hdelivers with
    | cons hread _ =>
      obtain ⟨inv, hok, -⟩ := hread s.client hclient.distinct
      exact ⟨inv, hok⟩
  · rw [hclear] at hdelivers
    cases hdelivers
    have hsynced := hclient.synced
    have hahead : ∀ name, name ∉ s.ahead := by
      intro name hname
      obtain ⟨p, hp, -⟩ := hname
      rw [hidle] at hp
      cases hp
    have hmodified : ¬s.server.original.modified := fun hm => by
      rw [show s.server.original.modified = (s.server.checkModified = true) from rfl, hclean] at hm
      cases hm
    have hdirty := (TrackedInventory.not_modified_iff.mp hmodified).2
    have hget : ∀ t ∈ s.server.lists, s.client.getList t.name = some t.list :=
      fun t ht => hsynced.clean t.name t.list ⟨t, ht, hdirty t ht, rfl⟩ (hahead t.name)
    constructor
    · intro hl
      have hlist := (InventoryLists.getList_eq_some hclient.distinct).mpr ⟨hl, rfl⟩
      by_cases hname : l.name ∈ s.server.original.keys
      · obtain ⟨t, ht, hname⟩ := List.mem_map.mp hname
        rw [← hname, hget t ht] at hlist
        exact Option.some.inj hlist ▸ List.mem_map_of_mem ht
      · have hnone := hsynced.gone hmodified l.name hname
        change s.client.getList l.name = none at hnone
        rw [hnone] at hlist
        cases hlist
    · intro hl
      obtain ⟨t, ht, rfl⟩ := List.mem_map.mp hl
      exact ((InventoryLists.getList_eq_some hclient.distinct).mp (hget t ht)).1

/-- In a run whose steps keep to the conditions, the client can read what it is sent, and has the
server's lists when nothing is on its way. -/
theorem inventory_converges (env : SyncEnv) {s : SyncState}
    (h : (inventorySync env).Run (SyncAllowed env) s) : Converges env s := by
  apply SyncInv.converges
  refine h.invariant (I := SyncInv env) ?_ ?_
  · intro s hs
    obtain ⟨server, client, order, hjoins, rfl⟩ := hs
    exact SyncInv.joined hjoins order
  · intro s a s' hinv hok hs
    exact hinv.step hok hs

section Example

open InventoryLists (anyUninit anyJson anyOrder chest namedStone stored_namedStone)

def anySync : SyncEnv where
  uninit := anyUninit
  json := anyJson
  serverItems := { get := fun _ => {} }
  clientItems := { get := fun _ => {} }

def mainInventory (items : ItemList) (dirty : Bool) : TrackedInventory where
  lists := [{ name := bytes "main", slots := { items, dirty } }]
  dirty := dirty

theorem distinct_mainInventory (items : ItemList) (dirty : Bool) : (mainInventory items dirty).Distinct :=
  List.nodup_singleton _

theorem sendable_mainInventory {items : ItemList} (hsize : items.length < 2 ^ 32)
    (hitems : ∀ t ∈ items, t = {} ∨ t = namedStone) (incremental dirty : Bool) :
    (mainInventory items dirty).Sendable anySync.json (some anySync.clientItems) incremental := by
  refine ⟨fun l hl => ?_, fun l hl => ?_, fun l hl _ t ht => ?_⟩
  · rw [List.mem_singleton.mp hl]
    change 32 ∉ bytes "main" ∧ 10 ∉ bytes "main"
    decide
  · rw [List.mem_singleton.mp hl]
    exact hsize
  · rw [List.mem_singleton.mp hl] at ht
    rcases hitems t ht with rfl | rfl
    · exact ⟨.inl rfl, fun h => absurd rfl h⟩
    · exact ⟨stored_namedStone, fun _ => show namedStone.name ∉ obsoleteWords by decide⟩

/-- The client moves a stack ahead of the server, which then moves it too. -/
theorem inventory_converges_main :
    ∃ s, (inventorySync anySync).Run (SyncAllowed anySync) s ∧
      s.toClient = [] ∧ s.toServer = [] ∧
        ∀ l : InventoryList, l ∈ s.client ↔ l ∈ [⟨bytes "main", 0, [{}, namedStone]⟩] := by
  have hitems : ∀ t ∈ [namedStone, {}], t = {} ∨ t = namedStone := by simp
  have hmoved : ∀ t ∈ [{}, namedStone], t = {} ∨ t = namedStone := by simp
  let order : ℕ → ℕ → MetadataOrder := fun _ _ => anyOrder
  let p : Prediction := .move (bytes "main") 0 (bytes "main") 1 0
  have hjoins : Joins anySync (mainInventory [namedStone, {}] true) (chest namedStone) :=
    ⟨distinct_mainInventory _ _, List.nodup_singleton _, sendable_mainInventory (by decide) hitems false true⟩
  have h0 : (inventorySync anySync).Run (SyncAllowed anySync)
      (joined (mainInventory [namedStone, {}] true) (chest namedStone) order) :=
    .init ⟨_, _, order, hjoins, rfl⟩
  let text₁ := (mainInventory [namedStone, {}] true).serialize order false
  let s₁ : SyncState :=
    { server := mainInventory [namedStone, {}] false
      client := [⟨bytes "main", 0, [{}, namedStone]⟩]
      toClient := [text₁]
      toServer := [p] }
  have h1 : (inventorySync anySync).Run (SyncAllowed anySync) s₁ :=
    .step (a := SyncStep.predict p) h0 trivial rfl
  obtain ⟨inv₁, hread₁⟩ := (inventory_converges anySync h1).reads text₁ [] rfl
  let s₂ : SyncState := { s₁ with client := inv₁, fromServer := some inv₁, toClient := [] }
  have h2 : (inventorySync anySync).Run (SyncAllowed anySync) s₂ :=
    .step (a := SyncStep.receive) h1 trivial (next_receive rfl hread₁)
  let s₃ : SyncState := { s₂ with server := mainInventory [namedStone, {}] true, toServer := [] }
  have h3 : (inventorySync anySync).Run (SyncAllowed anySync) s₃ :=
    .step (a := SyncStep.handle) h2 trivial rfl
  let s₄ : SyncState := { s₃ with server := mainInventory [{}, namedStone] true }
  have h4 : (inventorySync anySync).Run (SyncAllowed anySync) s₄ :=
    .step (a := SyncStep.mutate (.moveItem (some 0) 0 (some 0) 1 0 true [])) h3 ⟨trivial, trivial⟩ rfl
  let text₂ := (mainInventory [{}, namedStone] true).serialize order true
  let s₅ : SyncState := { s₄ with server := mainInventory [{}, namedStone] false, toClient := [text₂] }
  have h5 : (inventorySync anySync).Run (SyncAllowed anySync) s₅ :=
    .step (a := SyncStep.send true order) h4 (sendable_mainInventory (by decide) hmoved true true) rfl
  obtain ⟨inv₂, hread₂⟩ := (inventory_converges anySync h5).reads text₂ [] rfl
  let s₆ : SyncState := { s₅ with client := inv₂, fromServer := some inv₂, toClient := [] }
  have h6 : (inventorySync anySync).Run (SyncAllowed anySync) s₆ :=
    .step (a := SyncStep.receive) h5 trivial (next_receive rfl hread₂)
  exact ⟨s₆, h6, rfl, rfl, (inventory_converges anySync h6).same rfl rfl rfl⟩

/-- A list that is not marked is assigned another, and is sent as one to keep. -/
theorem not_inventory_converges :
    ¬∀ (env : SyncEnv) (s : SyncState), (inventorySync env).Reach s → Converges env s := by
  intro h
  let order : ℕ → ℕ → MetadataOrder := fun _ _ => anyOrder
  let stone : InventoryList := ⟨bytes "main", 0, [namedStone]⟩
  let cleared : InventoryList := ⟨bytes "main", 0, [{}]⟩
  have hsend : ∀ incremental, (mainInventory [namedStone] true).Sendable anySync.json
      (some anySync.clientItems) incremental :=
    fun incremental => sendable_mainInventory (by decide) (by simp) incremental true
  have h0 : (inventorySync anySync).Reach (joined (mainInventory [namedStone] true) [] order) :=
    .init ⟨mainInventory [namedStone] true, [], order, ⟨distinct_mainInventory _ _, List.nodup_nil, hsend false⟩, rfl⟩
  obtain ⟨inv₁, hread₁, hdistinct₁, hlist₁⟩ :=
    delivers_serialize order (distinct_mainInventory _ _) (hsend false) [] List.nodup_nil
  let s₁ : SyncState :=
    { server := mainInventory [namedStone] false, client := inv₁, fromServer := some inv₁ }
  have h1 : (inventorySync anySync).Reach s₁ :=
    .step (a := SyncStep.receive) h0 trivial (next_receive rfl hread₁)
  let s₂ : SyncState := { s₁ with server := mainInventory [{}] false }
  have h2 : (inventorySync anySync).Reach s₂ :=
    .step (a := SyncStep.mutate (.assignList 0 cleared)) h1 trivial rfl
  have hsend₂ : (mainInventory [{}] false).Sendable anySync.json (some anySync.clientItems) true :=
    sendable_mainInventory (by decide) (by simp) true false
  obtain ⟨inv₂, hread₂, hdistinct₂, hlist₂⟩ :=
    delivers_serialize order (distinct_mainInventory _ _) hsend₂ inv₁ hdistinct₁
  let text₂ := (mainInventory [{}] false).serialize order true
  let s₃ : SyncState := { s₂ with toClient := [text₂] }
  have h3 : (inventorySync anySync).Reach s₃ := .step (a := SyncStep.send true order) h2 trivial rfl
  let s₄ : SyncState := { s₃ with client := inv₂, fromServer := some inv₂, toClient := [] }
  have h4 : (inventorySync anySync).Reach s₄ :=
    .step (a := SyncStep.receive) h3 trivial (next_receive rfl hread₂)
  have hkept : inv₂.getList (bytes "main") = some stone := by
    rw [hlist₂, hlist₁]
    rfl
  have hmem := ((InventoryLists.getList_eq_some hdistinct₂).mp hkept).1
  have hsame := ((h anySync s₄ h4).same rfl rfl rfl stone).mp hmem
  have hitems : stone = cleared := List.mem_singleton.mp hsame
  exact absurd hitems (by decide)

end Example

end Freeminer.Inventory
