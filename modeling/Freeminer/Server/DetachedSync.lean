import Freeminer.Server.DetachedInventories

/-! What is sent of the detached inventories. The owner of a new inventory is looked up by the name
of the inventory, the step of the environment sends to all, and every send takes away the mark
that another client still needed. Without these, what an inventory is not marked for was sent to
all who may access it, and nobody else was sent the inventories that have an owner. -/

namespace Freeminer.Server

open Lib Inventory Login
open Mtp (SessionT PEER_ID_INEXISTENT)

namespace DetachedState

variable {order : ℕ → ℕ → MetadataOrder} {s s' : DetachedState} {dinv : DetachedInventory}
  {name player peerName : ByteString} {peerId : SessionT} {incremental : Bool}
  {names : List ByteString} {exempt : Option SessionT} {pkt : DetachedPacket}
  {createdFor : Option ByteString}

/-- The invariant. The client that is exempt is still being sent the inventories. -/
structure Inv (order : ℕ → ℕ → MetadataOrder) (exempt : Option SessionT) (s : DetachedState) :
    Prop where
  priv : s.Private
  told : ∀ name dinv, s.detachedInventories.lookup name = some dinv →
    dinv.inventory.checkModified = false → ∀ c ∈ s.clients, DetachedClient.Loaded c →
      some c.peerId ≠ exempt → dinv.CheckAccess c.name →
        c.told name = some (dinv.inventory.serialize order false)
  owner : ∀ name dinv, s.detachedInventories.lookup name = some dinv →
    ∀ owner, dinv.createdFor = some owner → dinv.owner = owner ∧ owner ≠ []
  players : ∀ p ∈ s.players, ∃ c ∈ s.clients, c.peerId = p.2 ∧ c.name = p.1 ∧
    DetachedClient.Loaded c
  clients : ∀ c ∈ s.clients, c.peerId ≠ PEER_ID_INEXISTENT ∧ c.name ≠ []
  distinct : (s.clients.map DetachedClient.peerId).Nodup
  noEnv : s.hasEnv = false → s.clients = []

/-! ## One packet -/

theorem serialize_setModified (inv : TrackedInventory) :
    (inv.setModified false).serialize order false = inv.serialize order false := by
  rw [TrackedInventory.serialize_full, TrackedInventory.serialize_full,
    TrackedInventory.setModified, if_neg Bool.false_ne_true, List.map_map]
  rfl

theorem checkModified_setModified (inv : TrackedInventory) :
    (inv.setModified false).checkModified = false := by
  simp [TrackedInventory.checkModified, TrackedInventory.setModified, TrackedList.setModified]

/-- A client after a packet is one from before, who heard of it or not. -/
theorem mem_clients_send {c' : DetachedClient} (h : c' ∈ (s.send pkt createdFor peerId).clients) :
    ∃ c ∈ s.clients, c'.peerId = c.peerId ∧ c'.name = c.name ∧ c'.state = c.state ∧
      (∀ name ≠ pkt.name, c'.told name = c.told name) ∧
      (Recipient peerId c → c'.told pkt.name = pkt.update) ∧
      (¬Recipient peerId c → c' = c) := by
  obtain ⟨c, hc, rfl⟩ := List.mem_map.mp h
  refine ⟨c, hc, ?_⟩
  split_ifs with hto
  · refine ⟨rfl, rfl, rfl, fun name hne => ?_, fun _ => ?_, fun hnot => absurd hto hnot⟩
    · exact Function.update_of_ne hne _ _
    · exact Function.update_self _ _ _
  · exact ⟨rfl, rfl, rfl, fun _ _ => rfl, fun h => absurd h hto, fun _ => rfl⟩

theorem exists_mem_clients_send {c : DetachedClient} (h : c ∈ s.clients) :
    ∃ c' ∈ (s.send pkt createdFor peerId).clients, c'.peerId = c.peerId ∧ c'.name = c.name ∧
      c'.state = c.state := by
  refine ⟨_, List.mem_map.mpr ⟨c, h, rfl⟩, ?_⟩
  split_ifs <;> exact ⟨rfl, rfl, rfl⟩

theorem map_peerId_send : (s.send pkt createdFor peerId).clients.map DetachedClient.peerId =
    s.clients.map DetachedClient.peerId := by
  rw [send, List.map_map]
  apply List.map_congr_left
  intro c _
  simp only [Function.comp_apply]
  split_ifs <;> rfl

/-- A packet about one inventory, and what that inventory is from then on. -/
theorem Inv.send {inventories : AList fun _ : ByteString => DetachedInventory}
    (h : s.Inv order exempt)
    (hother : ∀ name ≠ pkt.name, inventories.lookup name = s.detachedInventories.lookup name)
    (howner : ∀ dinv, inventories.lookup pkt.name = some dinv →
      ∀ owner, dinv.createdFor = some owner → dinv.owner = owner ∧ owner ≠ [])
    (htold : ∀ dinv, inventories.lookup pkt.name = some dinv →
      dinv.inventory.checkModified = false →
        pkt.update = some (dinv.inventory.serialize order false) ∧
        ∀ c ∈ s.clients, DetachedClient.Loaded c → some c.peerId ≠ exempt →
          dinv.CheckAccess c.name → Recipient peerId c ∨ c.told pkt.name = pkt.update)
    (hdiscreet : ∀ owner, createdFor = some owner → pkt.update ≠ none →
      ∀ c ∈ s.clients, Recipient peerId c → c.name = owner) :
    Inv order exempt
      { s.send pkt createdFor peerId with detachedInventories := inventories } where
  priv := by
    intro d hd owner hfor hupdate
    rcases List.mem_append.mp hd with hd | hd
    · exact h.priv d hd owner hfor hupdate
    · obtain ⟨c, hc, rfl⟩ := List.mem_map.mp hd
      obtain ⟨hc, hto⟩ := List.mem_filter.mp hc
      exact hdiscreet owner hfor hupdate c hc (of_decide_eq_true hto)
  told := by
    intro name dinv hlookup hclean c' hc' hloaded hexempt haccess
    have hmem : c' ∈ (s.send pkt createdFor peerId).clients := hc'
    obtain ⟨c, hc, hpeer, hname, hstate, hkept, hto, hnot⟩ := mem_clients_send hmem
    rw [DetachedClient.Loaded, hstate] at hloaded
    rw [hpeer] at hexempt
    rw [hname] at haccess
    by_cases hne : name = pkt.name
    · subst hne
      obtain ⟨hupdate, hreached⟩ := htold dinv hlookup hclean
      by_cases hrecipient : Recipient peerId c
      · rw [hto hrecipient, hupdate]
      · rw [hnot hrecipient, ← hupdate]
        exact (hreached c hc hloaded hexempt haccess).resolve_left hrecipient
    · rw [hkept name hne]
      exact h.told name dinv (hother name hne ▸ hlookup) hclean c hc hloaded hexempt haccess
  owner := by
    intro name dinv hlookup
    by_cases hne : name = pkt.name
    · subst hne
      exact howner dinv hlookup
    · exact h.owner name dinv (hother name hne ▸ hlookup)
  players := by
    intro p hp
    obtain ⟨c, hc, hpeer, hname, hloaded⟩ := h.players p hp
    obtain ⟨c', hc', hpeer', hname', hstate'⟩ :
        ∃ c' ∈ (s.send pkt createdFor peerId).clients, c'.peerId = c.peerId ∧ c'.name = c.name ∧
          c'.state = c.state := exists_mem_clients_send hc
    refine ⟨c', hc', hpeer'.trans hpeer, hname'.trans hname, ?_⟩
    rw [DetachedClient.Loaded, hstate']
    exact hloaded
  clients := by
    intro c' hc'
    have hmem : c' ∈ (s.send pkt createdFor peerId).clients := hc'
    obtain ⟨c, hc, hpeer, hname, -⟩ := mem_clients_send hmem
    rw [hpeer, hname]
    exact h.clients c hc
  distinct := by
    change ((s.send pkt createdFor peerId).clients.map DetachedClient.peerId).Nodup
    rw [map_peerId_send]
    exact h.distinct
  noEnv := by
    intro henv
    change (s.send pkt createdFor peerId).clients = []
    rw [DetachedState.send, h.noEnv henv]
    rfl

/-- Another inventory under a name, with a mark or known to all who may access it. -/
theorem Inv.insert (h : s.Inv order exempt)
    (howner : ∀ owner, dinv.createdFor = some owner → dinv.owner = owner ∧ owner ≠ [])
    (htold : dinv.inventory.checkModified = false → ∀ c ∈ s.clients, DetachedClient.Loaded c →
      some c.peerId ≠ exempt → dinv.CheckAccess c.name →
        c.told name = some (dinv.inventory.serialize order false)) :
    Inv order exempt
      { s with detachedInventories := s.detachedInventories.insert name dinv } where
  priv := h.priv
  told := by
    intro name' dinv' hlookup hclean
    by_cases hne : name' = name
    · subst hne
      obtain rfl := Option.some.inj ((AList.lookup_insert _).symm.trans hlookup)
      exact htold hclean
    · exact h.told name' dinv' ((AList.lookup_insert_ne hne).symm.trans hlookup) hclean
  owner := by
    intro name' dinv' hlookup
    by_cases hne : name' = name
    · subst hne
      obtain rfl := Option.some.inj ((AList.lookup_insert _).symm.trans hlookup)
      exact howner
    · exact h.owner name' dinv' ((AList.lookup_insert_ne hne).symm.trans hlookup)
  players := h.players
  clients := h.clients
  distinct := h.distinct
  noEnv := h.noEnv

/-- Everyone past loading who may access the inventory is reached, or knows it already. -/
def Reached (order : ℕ → ℕ → MetadataOrder) (exempt : Option SessionT) (s : DetachedState)
    (name : ByteString) (dinv : DetachedInventory) (peerId : SessionT) : Prop :=
  ∀ c ∈ s.clients, DetachedClient.Loaded c → some c.peerId ≠ exempt → dinv.CheckAccess c.name →
    Recipient peerId c ∨ c.told name = some (dinv.inventory.serialize order false)

theorem Complete.reached (h : s.Complete dinv peerId) : s.Reached order exempt name dinv peerId :=
  fun c hc hloaded _ haccess => .inl (h c hc hloaded haccess)

theorem Inv.sendDetachedInventory (h : s.Inv order exempt)
    (hlookup : s.detachedInventories.lookup name = some dinv)
    (hreached : s.Reached order exempt name dinv peerId) (hdiscreet : s.Discreet dinv peerId) :
    Inv order exempt (s.sendDetachedInventory order dinv name peerId) := by
  refine h.send (fun name' hne => AList.lookup_insert_ne hne) ?_ ?_
    fun owner hfor _ => hdiscreet owner hfor
  · intro dinv' hlookup' owner hfor
    obtain rfl := Option.some.inj ((AList.lookup_insert _).symm.trans hlookup')
    exact h.owner name dinv hlookup owner hfor
  · intro dinv' hlookup' _
    obtain rfl := Option.some.inj ((AList.lookup_insert _).symm.trans hlookup')
    exact ⟨by rw [serialize_setModified], hreached⟩

/-! ## The loop over the inventories -/

/-- What a loop over `names` has done. -/
structure Sent (order : ℕ → ℕ → MetadataOrder) (peerId : SessionT) (peerName : ByteString)
    (incremental : Bool) (names : List ByteString) (s s' : DetachedState) : Prop where
  others : ∀ name ∉ names, s'.detachedInventories.lookup name = s.detachedInventories.lookup name
  sent : ∀ name ∈ names, ∀ dinv, s'.detachedInventories.lookup name = some dinv →
    Skipped peerName incremental dinv ∨ dinv.inventory.checkModified = false ∧
      ∀ c ∈ s'.clients, Recipient peerId c →
        c.told name = some (dinv.inventory.serialize order false)
  players : s'.players = s.players
  clients : ∀ c' ∈ s'.clients, ∃ c ∈ s.clients, c'.peerId = c.peerId ∧ c'.name = c.name ∧
    c'.state = c.state ∧ ∀ name ∉ names, c'.told name = c.told name

theorem recipient_congr {c c' : DetachedClient} (hpeer : c'.peerId = c.peerId)
    (hstate : c'.state = c.state) : Recipient peerId c' ↔ Recipient peerId c := by
  rw [Recipient, Recipient, hpeer, hstate]

theorem Sent.refl (h : ∀ name ∈ names, ∀ dinv, s.detachedInventories.lookup name = some dinv →
    Skipped peerName incremental dinv) :
    Sent order peerId peerName incremental names s s where
  others _ _ := rfl
  sent name hname dinv hlookup := .inl (h name hname dinv hlookup)
  players := rfl
  clients c hc := ⟨c, hc, rfl, rfl, rfl, fun _ _ => rfl⟩

theorem Sent.cons {s₁ : DetachedState} (hnot : name ∉ names)
    (hfirst : Sent order peerId peerName incremental [name] s s₁)
    (hrest : Sent order peerId peerName incremental names s₁ s') :
    Sent order peerId peerName incremental (name :: names) s s' where
  others name' hname' := by
    obtain ⟨hne, hname'⟩ := not_or.mp (mt List.mem_cons.mpr hname')
    rw [hrest.others name' hname', hfirst.others name' (by simpa using hne)]
  sent := by
    intro name' hname' dinv hlookup
    rcases List.mem_cons.mp hname' with rfl | hname'
    · rw [hrest.others _ hnot] at hlookup
      refine (hfirst.sent _ (List.mem_singleton_self _) dinv hlookup).imp_right fun h => ?_
      refine ⟨h.1, fun c' hc' hto => ?_⟩
      obtain ⟨c, hc, hpeer, -, hstate, htold⟩ := hrest.clients c' hc'
      rw [htold _ hnot]
      exact h.2 c hc ((recipient_congr hpeer hstate).mp hto)
    · exact hrest.sent name' hname' dinv hlookup
  players := hrest.players.trans hfirst.players
  clients c' hc' := by
    obtain ⟨c, hc, h1, h2, h3, h4⟩ := hrest.clients c' hc'
    obtain ⟨c₀, hc₀, h5, h6, h7, h8⟩ := hfirst.clients c hc
    refine ⟨c₀, hc₀, h1.trans h5, h2.trans h6, h3.trans h7, fun name' hname' => ?_⟩
    obtain ⟨hne, hname'⟩ := not_or.mp (mt List.mem_cons.mpr hname')
    rw [h4 name' hname', h8 name' (by simpa using hne)]

theorem sent_sendDetachedInventory (hlookup : s.detachedInventories.lookup name = some dinv) :
    Sent order peerId peerName incremental [name] s
      (s.sendDetachedInventory order dinv name peerId) where
  others name' hname' := AList.lookup_insert_ne (by simpa using hname')
  sent := by
    intro name' hname' dinv' hlookup'
    obtain rfl := List.mem_singleton.mp hname'
    obtain rfl := Option.some.inj ((AList.lookup_insert _).symm.trans hlookup')
    refine .inr ⟨checkModified_setModified _, fun c' hc' hto => ?_⟩
    have hmem : c' ∈ (s.send ⟨name', some (dinv.inventory.serialize order false)⟩ dinv.createdFor
      peerId).clients := hc'
    obtain ⟨c, hc, hpeer, -, hstate, -, htold, -⟩ := mem_clients_send hmem
    rw [serialize_setModified]
    exact htold ((recipient_congr hpeer hstate).mp hto)
  players := rfl
  clients c' hc' := by
    have hmem : c' ∈ (s.send ⟨name, some (dinv.inventory.serialize order false)⟩ dinv.createdFor
      peerId).clients := hc'
    obtain ⟨c, hc, hpeer, hname, hstate, hkept, -⟩ := mem_clients_send hmem
    exact ⟨c, hc, hpeer, hname, hstate, fun name' hname' => hkept name' (by simpa using hname')⟩

/-- The loop keeps the invariant if each inventory it sends may be sent. -/
theorem Inv.sendInventories (hnodup : names.Nodup) (h : s.Inv order exempt)
    (hok : ∀ name ∈ names, ∀ dinv, s.detachedInventories.lookup name = some dinv →
      ¬Skipped peerName incremental dinv →
        s.Reached order exempt name dinv peerId ∧ s.Discreet dinv peerId) :
    Inv order exempt (s.sendInventories order peerId peerName incremental names) ∧
      Sent order peerId peerName incremental names s
        (s.sendInventories order peerId peerName incremental names) := by
  induction names generalizing s with
  | nil => exact ⟨h, .refl (by simp)⟩
  | cons name names ih =>
    obtain ⟨hnot, hnodup⟩ := List.nodup_cons.mp hnodup
    obtain ⟨s₁, hs₁⟩ : ∃ s₁, s₁ = s.sendInventories order peerId peerName incremental [name] :=
      ⟨_, rfl⟩
    have hstep : s.sendInventories order peerId peerName incremental (name :: names) =
        s₁.sendInventories order peerId peerName incremental names := by rw [hs₁]; rfl
    have hfirst : s₁.Inv order exempt ∧
        Sent order peerId peerName incremental [name] s s₁ := by
      simp only [DetachedState.sendInventories, List.foldl_cons, List.foldl_nil] at hs₁
      cases hlookup : s.detachedInventories.lookup name with
      | none =>
        rw [hlookup] at hs₁
        subst hs₁
        refine ⟨h, .refl fun name' hname' dinv hlookup' => ?_⟩
        rw [List.mem_singleton.mp hname', hlookup] at hlookup'
        cases hlookup'
      | some dinv =>
        simp only [hlookup] at hs₁
        split_ifs at hs₁ with hskipped
        · subst hs₁
          refine ⟨h, .refl fun name' hname' dinv' hlookup' => ?_⟩
          rw [List.mem_singleton.mp hname', hlookup] at hlookup'
          exact Option.some.inj hlookup' ▸ hskipped
        · obtain ⟨hreached, hdiscreet⟩ := hok name List.mem_cons_self dinv hlookup hskipped
          exact hs₁ ▸ ⟨h.sendDetachedInventory hlookup hreached hdiscreet,
            sent_sendDetachedInventory hlookup⟩
    rw [hstep]
    obtain ⟨hinv, hsent⟩ := hfirst
    have hrest := ih hnodup hinv fun name' hname' dinv hlookup hskipped => by
      have hne : name' ≠ name := fun heq => hnot (heq ▸ hname')
      rw [hsent.others name' (by simpa using hne)] at hlookup
      obtain ⟨hreached, hdiscreet⟩ := hok name' (List.mem_cons_of_mem _ hname') dinv hlookup hskipped
      refine ⟨fun c' hc' hloaded hexempt haccess => ?_, fun owner hfor c' hc' hto => ?_⟩
      · obtain ⟨c, hc, hpeer, hname, hstate, htold⟩ := hsent.clients c' hc'
        rw [DetachedClient.Loaded, hstate] at hloaded
        rw [hpeer] at hexempt
        rw [hname] at haccess
        rw [recipient_congr hpeer hstate, htold name' (by simpa using hne)]
        exact hreached c hc hloaded hexempt haccess
      · obtain ⟨c, hc, hpeer, hname, hstate, -⟩ := hsent.clients c' hc'
        rw [hname]
        exact hdiscreet owner hfor c hc ((recipient_congr hpeer hstate).mp hto)
    exact ⟨hrest.1, hsent.cons hnot hrest.2⟩

/-! ## The operations -/

theorem Inv.init : Inv order none {} where
  priv := by simp [Private]
  told _ _ h := by cases h
  owner _ _ h := by cases h
  players := by simp
  clients := by simp
  distinct := .nil
  noEnv _ := rfl

theorem Inv.eq_of_peerId (h : s.Inv order exempt) {c c' : DetachedClient} (hc : c ∈ s.clients)
    (hc' : c' ∈ s.clients) (hpeer : c'.peerId = c.peerId) : c' = c :=
  List.inj_on_of_nodup_map h.distinct hc' hc hpeer

theorem mem_of_getPlayer (h : s.getPlayer player = some peerId) :
    (player, peerId) ∈ s.players := by
  obtain ⟨l₁, l₂, hlist, -⟩ := List.lookup_eq_some_iff.mp h
  rw [hlist]
  simp

/-- The client of a player that is in the environment. -/
theorem Inv.client_of_getPlayer (h : s.Inv order exempt) (hplayer : s.getPlayer player = some peerId) :
    ∃ c ∈ s.clients, c.peerId = peerId ∧ c.name = player ∧ DetachedClient.Loaded c :=
  h.players _ (mem_of_getPlayer hplayer)

/-- An inventory without a mark is in sync. -/
theorem Inv.inSync (h : s.Inv order none)
    (hclean : ∀ dinv, s.detachedInventories.lookup name = some dinv →
      dinv.inventory.checkModified = false) : s.InSync order name := by
  intro dinv hlookup player peerId hplayer haccess
  obtain ⟨c, hc, hpeer, hname, hloaded⟩ := h.client_of_getPlayer hplayer
  refine ⟨c, hc, hpeer, ?_⟩
  exact h.told name dinv hlookup (hclean dinv hlookup) c hc hloaded nofun (hname ▸ haccess)

theorem recipient_of_ne (hpeer : peerId ≠ PEER_ID_INEXISTENT) {c : DetachedClient} :
    Recipient peerId c ↔ c.peerId = peerId := by
  rw [Recipient, if_neg hpeer]

theorem Inv.create (h : s.Inv order none) (hok : s.Ok (.create name player)) :
    Inv order none (s.createDetachedInventory order name player) ∧
      InSync order (s.createDetachedInventory order name player) name := by
  obtain ⟨dinv, hdinv⟩ : ∃ dinv : DetachedInventory, dinv = {
      owner := if player ≠ [] then player
        else ((s.detachedInventories.lookup name).map DetachedInventory.owner).getD []
      createdFor := if player ≠ [] then some player else none } := ⟨_, rfl⟩
  obtain ⟨s₁, hs₁⟩ : ∃ s₁ : DetachedState,
      s₁ = { s with detachedInventories := s.detachedInventories.insert name dinv } := ⟨_, rfl⟩
  have hfor : ∀ owner, dinv.createdFor = some owner → dinv.owner = owner ∧ owner ≠ [] := by
    intro owner hfor
    rw [hdinv] at hfor ⊢
    by_cases hplayer : player = []
    · simp [hplayer] at hfor
    · simp only [hplayer, ne_eq, not_false_eq_true, if_true, Option.some.injEq] at hfor ⊢
      exact hfor ▸ ⟨rfl, hplayer⟩
  have hmodified : dinv.inventory.checkModified = true := by
    rw [hdinv]
    rfl
  have hinv₁ : s₁.Inv order none := by
    rw [hs₁]
    exact h.insert hfor fun hclean => absurd (hmodified.symm.trans hclean) (by decide)
  have hlookup₁ : s₁.detachedInventories.lookup name = some dinv := by
    rw [hs₁]
    exact AList.lookup_insert _
  -- a packet with the new inventory
  have hsend : ∀ dest, s₁.Complete dinv dest → s₁.Discreet dinv dest →
      Inv order none (s₁.sendDetachedInventory order dinv name dest) ∧
        InSync order (s₁.sendDetachedInventory order dinv name dest) name := by
    intro dest hcomplete hdiscreet
    have hinv := hinv₁.sendDetachedInventory hlookup₁ hcomplete.reached hdiscreet
    refine ⟨hinv, hinv.inSync fun dinv' hlookup' => ?_⟩
    obtain rfl := Option.some.inj ((AList.lookup_insert _).symm.trans hlookup')
    exact checkModified_setModified _
  have hcreate : s.createDetachedInventory order name player =
      if !s.hasEnv then s₁
      else if player ≠ [] then
        ((s.getPlayer name).map (s₁.sendDetachedInventory order dinv name)).getD s₁
      else s₁.sendDetachedInventory order dinv name PEER_ID_INEXISTENT := by
    rw [hs₁, hdinv]
    unfold createDetachedInventory
    dsimp only [getPlayer]
    cases s.players.lookup name <;> rfl
  rw [hcreate]
  cases henv : s.hasEnv with
  | false =>
    refine ⟨hinv₁, fun dinv' _ player' peerId' hplayer' _ => ?_⟩
    obtain ⟨c, hc, -⟩ := hinv₁.client_of_getPlayer hplayer'
    rw [hinv₁.noEnv (by rw [hs₁]; exact henv)] at hc
    exact absurd hc List.not_mem_nil
  | true =>
    have hok := hok henv
    simp only [Bool.not_true, Bool.false_eq_true, if_false]
    by_cases hplayer : player = []
    · rw [if_pos hplayer] at hok
      rw [if_neg (not_not.mpr hplayer)]
      refine hsend _ ?_ ?_
      · have hcomplete := hok _ rfl
        rw [hs₁, hdinv]
        simpa [Complete, DetachedInventory.CheckAccess, hplayer] using hcomplete
      · intro owner hcreated
        rw [hdinv] at hcreated
        simp [hplayer] at hcreated
    · rw [if_neg hplayer] at hok
      rw [if_pos hplayer]
      have howner : dinv.owner = player := by
        rw [hdinv]
        simp [hplayer]
      cases hget : s.getPlayer name with
      | none =>
        rw [hget] at hok
        refine ⟨hinv₁, fun dinv' hlookup' player' peerId' hplayer' haccess => ?_⟩
        obtain rfl := Option.some.inj (hlookup₁.symm.trans hlookup')
        rw [DetachedInventory.CheckAccess, howner] at haccess
        obtain rfl := haccess.resolve_left hplayer
        rw [hs₁] at hplayer'
        cases hok.symm.trans hplayer'
      | some peerId =>
        rw [hget] at hok
        obtain ⟨rfl, hcomplete⟩ := hok
        refine hsend _ ?_ ?_
        · rw [hs₁]
          intro c hc hloaded haccess
          rw [DetachedInventory.CheckAccess, howner] at haccess
          exact hcomplete c hc hloaded haccess
        · intro owner hcreated c hc hto
          obtain ⟨rfl, -⟩ := hfor owner hcreated
          obtain ⟨c₀, hc₀, hpeer, hname, -⟩ := h.client_of_getPlayer hget
          rw [hs₁] at hc
          rw [recipient_of_ne (hpeer ▸ (h.clients c₀ hc₀).1)] at hto
          rw [h.eq_of_peerId hc₀ hc (hto.trans hpeer.symm), hname, howner]

theorem Inv.step (h : s.Inv order none) (hok : s.Ok .step) (hplayers : s.players ≠ []) :
    Inv order none (s.sendDetachedInventories order PEER_ID_INEXISTENT [] true) ∧
      ∀ name, InSync order (s.sendDetachedInventories order PEER_ID_INEXISTENT [] true) name := by
  have hskipped : ∀ dinv, Skipped [] true dinv ↔ dinv.inventory.checkModified = false := by
    simp [Skipped]
  have hsend : ∀ name ∈ s.detachedInventories.keys, ∀ dinv,
      s.detachedInventories.lookup name = some dinv → ¬Skipped [] true dinv →
        s.Reached order none name dinv PEER_ID_INEXISTENT ∧ s.Discreet dinv PEER_ID_INEXISTENT := by
    intro name _ dinv hlookup hnot
    rw [hskipped, Bool.not_eq_false] at hnot
    obtain ⟨hcomplete, hdiscreet⟩ := hok hplayers name dinv hlookup hnot
    exact ⟨hcomplete.reached, hdiscreet⟩
  obtain ⟨hinv, hsent⟩ := h.sendInventories s.detachedInventories.keys_nodup hsend
  refine ⟨hinv, fun name => hinv.inSync fun dinv hlookup => ?_⟩
  by_cases hname : name ∈ s.detachedInventories.keys
  · exact (hsent.sent name hname dinv hlookup).elim (hskipped dinv).mp fun h => h.1
  · rw [hsent.others name hname, AList.lookup_eq_none.mpr hname] at hlookup
    cases hlookup

theorem Inv.remove (h : s.Inv order none) :
    Inv order none (s.removeDetachedInventory name) := by
  rw [removeDetachedInventory]
  split
  · exact h
  rename_i dinv hlookup
  have hother : ∀ name' ≠ name, (s.detachedInventories.erase name).lookup name' =
      s.detachedInventories.lookup name' := fun name' hne => AList.lookup_erase_ne hne
  have hgone : (s.detachedInventories.erase name).lookup name = none := AList.lookup_erase _ _
  have hsend : ∀ dest, Inv order none
      { s.send ⟨name, none⟩ dinv.createdFor dest with
        detachedInventories := s.detachedInventories.erase name } := by
    intro dest
    refine h.send hother (fun dinv' hlookup' => ?_) (fun dinv' hlookup' => ?_)
      fun _ _ hupdate => absurd rfl hupdate
    all_goals
      rw [hgone] at hlookup'
      cases hlookup'
  have hkeep : Inv order none
      { s with detachedInventories := s.detachedInventories.erase name } := by
    have hne : ∀ name' dinv', (s.detachedInventories.erase name).lookup name' = some dinv' →
        s.detachedInventories.lookup name' = some dinv' := by
      intro name' dinv' hlookup'
      by_cases heq : name' = name
      · rw [heq, hgone] at hlookup'
        cases hlookup'
      · rwa [hother name' heq] at hlookup'
    exact ⟨h.priv, fun name' dinv' hlookup' => h.told name' dinv' (hne name' dinv' hlookup'),
      fun name' dinv' hlookup' => h.owner name' dinv' (hne name' dinv' hlookup'), h.players,
      h.clients, h.distinct, h.noEnv⟩
  dsimp only
  split_ifs
  · exact hkeep
  · split
    · exact hkeep
    · exact hsend _
  · exact hsend _

theorem Inv.modify (h : s.Inv order none) {idef : ItemDefManager} {m : TrackedInventory.Mutation}
    {inventory : TrackedInventory} (hlookup : s.detachedInventories.lookup name = some dinv)
    (hmarked : m.Marked dinv.inventory) (happly : dinv.inventory.apply idef m = .ok inventory) :
    Inv order none { s with
      detachedInventories := s.detachedInventories.insert name { dinv with inventory } } := by
  refine h.insert (h.owner name dinv hlookup) fun hclean c hc hloaded hexempt haccess => ?_
  obtain ⟨hclean', hlists⟩ := TrackedInventory.eq_of_not_modified happly hmarked hclean
  have htext : inventory.serialize order false = dinv.inventory.serialize order false := by
    rw [TrackedInventory.serialize_full, TrackedInventory.serialize_full, hlists]
  rw [htext]
  exact h.told name dinv hlookup hclean' c hc hloaded hexempt haccess

theorem getClient_eq_some {c : DetachedClient} (h : s.getClient peerId = some c) :
    c ∈ s.clients ∧ c.peerId = peerId :=
  ⟨List.mem_of_find?_eq_some h, by simpa using List.find?_some h⟩

theorem Inv.connect (h : s.Inv order none) (henv : s.hasEnv = true)
    (hpeer : peerId ≠ PEER_ID_INEXISTENT) (hname : player ≠ [])
    (hnew : s.getClient peerId = none) :
    Inv order none { s with clients := s.clients ++ [{ peerId, name := player }] } where
  priv := h.priv
  told name dinv hlookup hclean c hc hloaded hexempt haccess := by
    rcases List.mem_append.mp hc with hc | hc
    · exact h.told name dinv hlookup hclean c hc hloaded hexempt haccess
    · obtain rfl := List.mem_singleton.mp hc
      have hnot : ¬ClientState.definitionsSent ≤ ClientState.awaitingInit2 := by decide
      exact absurd hloaded hnot
  owner := h.owner
  players p hp := by
    obtain ⟨c, hc, hrest⟩ := h.players p hp
    exact ⟨c, List.mem_append_left _ hc, hrest⟩
  clients c hc := by
    rcases List.mem_append.mp hc with hc | hc
    · exact h.clients c hc
    · obtain rfl := List.mem_singleton.mp hc
      exact ⟨hpeer, hname⟩
  distinct := by
    rw [List.map_append, List.map_singleton]
    refine List.nodup_append.mpr ⟨h.distinct, List.nodup_singleton _, fun a ha b hb => ?_⟩
    obtain ⟨c, hc, rfl⟩ := List.mem_map.mp ha
    rw [List.mem_singleton.mp hb]
    have hnone := List.find?_eq_none.mp hnew c hc
    simpa using hnone
  noEnv hno := absurd (hno.symm.trans henv) nofun

/-- A change of state of one client: the others are as they were, and it is exempt. -/
theorem mem_clients_setState {state : ClientState} {c' : DetachedClient}
    (h : c' ∈ (s.setState peerId state).clients) :
    ∃ c ∈ s.clients, c'.peerId = c.peerId ∧ c'.name = c.name ∧ c'.told = c.told ∧
      (c.peerId ≠ peerId → c' = c) ∧ (c.peerId = peerId → c'.state = state) := by
  obtain ⟨c, hc, rfl⟩ := List.mem_map.mp h
  refine ⟨c, hc, ?_⟩
  split_ifs with hpeer
  · exact ⟨rfl, rfl, rfl, fun hne => absurd hpeer hne, fun _ => rfl⟩
  · exact ⟨rfl, rfl, rfl, fun _ => rfl, fun heq => absurd heq hpeer⟩

/-- The state goes up, of a client that is exempt or was past loading. -/
theorem Inv.setState (h : s.Inv order none) {state : ClientState}
    (hloaded : .definitionsSent ≤ state)
    (hclient : exempt = some peerId ∨
      ∀ c ∈ s.clients, c.peerId = peerId → DetachedClient.Loaded c) :
    Inv order exempt (s.setState peerId state) where
  priv := h.priv
  told name dinv hlookup hclean c' hc' hloaded' hexempt haccess := by
    obtain ⟨c, hc, hpeer, hname, htold, hother, -⟩ := mem_clients_setState hc'
    rw [hname] at haccess
    rw [hpeer] at hexempt
    rw [htold]
    refine h.told name dinv hlookup hclean c hc ?_ nofun haccess
    by_cases heq : c.peerId = peerId
    · rcases hclient with rfl | hclient
      · exact absurd (congrArg some heq) hexempt
      · exact hclient c hc heq
    · exact hother heq ▸ hloaded'
  owner := h.owner
  players p hp := by
    obtain ⟨c, hc, hpeer, hname, hloaded'⟩ := h.players p hp
    refine ⟨_, List.mem_map.mpr ⟨c, hc, rfl⟩, ?_⟩
    split_ifs
    · exact ⟨hpeer, hname, hloaded⟩
    · exact ⟨hpeer, hname, hloaded'⟩
  clients c' hc' := by
    obtain ⟨c, hc, hpeer, hname, -⟩ := mem_clients_setState hc'
    rw [hpeer, hname]
    exact h.clients c hc
  distinct := by
    have hmap : (s.setState peerId state).clients.map DetachedClient.peerId =
        s.clients.map DetachedClient.peerId := by
      rw [DetachedState.setState, List.map_map]
      apply List.map_congr_left
      intro c _
      simp only [Function.comp_apply]
      split_ifs <;> rfl
    rw [hmap]
    exact h.distinct
  noEnv henv := by
    rw [DetachedState.setState, h.noEnv henv]
    rfl

theorem Inv.init2 (h : s.Inv order none) {c₀ : DetachedClient}
    (hget : s.getClient peerId = some c₀) (hok : s.Ok (.init2 peerId)) :
    Inv order none ((s.setState peerId .definitionsSent).sendDetachedInventories order peerId
      c₀.name false) := by
  obtain ⟨hc₀, hpeer₀⟩ := getClient_eq_some hget
  have hok := hok c₀.name (by rw [hget]; rfl)
  have hne : peerId ≠ PEER_ID_INEXISTENT := hpeer₀ ▸ (h.clients c₀ hc₀).1
  obtain ⟨s₁, hs₁⟩ : ∃ s₁, s₁ = s.setState peerId .definitionsSent := ⟨_, rfl⟩
  have hinv₁ : s₁.Inv order (some peerId) := hs₁ ▸ h.setState (Nat.le_refl _) (.inl rfl)
  have hlookup₁ : s₁.detachedInventories = s.detachedInventories := by rw [hs₁]; rfl
  have hname : ∀ c ∈ s₁.clients, c.peerId = peerId → c.name = c₀.name := by
    intro c' hc' hpeer'
    rw [hs₁] at hc'
    obtain ⟨c, hc, hpeer, hname, -⟩ := mem_clients_setState hc'
    rw [hname, h.eq_of_peerId hc₀ hc (hpeer.symm.trans (hpeer'.trans hpeer₀.symm))]
  have haccess : ∀ dinv, ¬Skipped c₀.name false dinv ↔ dinv.CheckAccess c₀.name := by
    intro dinv
    have hname₀ := (h.clients c₀ hc₀).2
    simp only [Skipped, Bool.false_eq_true, false_and, false_or, hname₀, ne_eq, not_false_eq_true,
      true_and, not_and, not_not, DetachedInventory.CheckAccess]
    constructor
    · exact fun himp => (em (dinv.owner = [])).imp id fun hne => (himp hne).symm
    · exact fun hor hne => (hor.resolve_left hne).symm
  have hsend : ∀ name ∈ s₁.detachedInventories.keys, ∀ dinv,
      s₁.detachedInventories.lookup name = some dinv → ¬Skipped c₀.name false dinv →
        s₁.Reached order (some peerId) name dinv peerId ∧ s₁.Discreet dinv peerId := by
    intro name _ dinv hlookup hnot
    rw [haccess] at hnot
    refine ⟨fun c' hc' hloaded hexempt haccess' => ?_, fun owner hfor c' hc' hto => ?_⟩
    · right
      by_cases hclean : dinv.inventory.checkModified = false
      · exact hinv₁.told name dinv hlookup hclean c' hc' hloaded hexempt haccess'
      · -- nobody else waits for what is sent now
        exfalso
        rw [hs₁] at hc'
        obtain ⟨c, hc, hpeer, hname', -, hother, -⟩ := mem_clients_setState hc'
        have hne' : c.peerId ≠ peerId := fun heq => hexempt (congrArg some (hpeer.trans heq))
        obtain rfl := hother hne'
        have hcomplete := hok name dinv (hlookup₁ ▸ hlookup) ((Bool.not_eq_false _).mp hclean) hnot
        exact hne' ((recipient_of_ne hne).mp (hcomplete c' hc hloaded haccess'))
    · rw [recipient_of_ne hne] at hto
      obtain ⟨howner, hempty⟩ := hinv₁.owner name dinv hlookup owner hfor
      rw [hname c' hc' hto]
      rw [DetachedInventory.CheckAccess, howner] at hnot
      exact (hnot.resolve_left hempty).symm
  obtain ⟨hinv, hsent⟩ := hinv₁.sendInventories s₁.detachedInventories.keys_nodup hsend
  rw [← hs₁]
  refine ⟨hinv.priv, fun name dinv hlookup hclean c' hc' hloaded _ haccess' => ?_, hinv.owner,
    hinv.players, hinv.clients, hinv.distinct, hinv.noEnv⟩
  by_cases hpeer' : c'.peerId = peerId
  · have hmem : name ∈ s₁.detachedInventories.keys := by
      by_contra hnot
      have hothers := hsent.others name hnot
      rw [AList.lookup_eq_none.mpr hnot] at hothers
      exact absurd (hothers.symm.trans hlookup) nofun
    obtain ⟨c, hc, hpeer, hname', -⟩ := hsent.clients c' hc'
    rw [hname', hname c hc (hpeer.symm.trans hpeer')] at haccess'
    have hnot := (haccess dinv).mpr haccess'
    exact ((hsent.sent name hmem dinv hlookup).resolve_left hnot).2 c' hc'
      ((recipient_of_ne hne).mpr hpeer')
  · exact hinv.told name dinv hlookup hclean c' hc' hloaded
      (fun heq => hpeer' (Option.some.inj heq)) haccess'

theorem Inv.emergePlayer (h : s.Inv order none) {c : DetachedClient}
    (hget : s.getClient peerId = some c) (hloaded : DetachedClient.Loaded c) :
    Inv order none { s with players := s.players ++ [(c.name, peerId)] } where
  priv := h.priv
  told := h.told
  owner := h.owner
  players p hp := by
    rcases List.mem_append.mp hp with hp | hp
    · exact h.players p hp
    · obtain rfl := List.mem_singleton.mp hp
      obtain ⟨hc, hpeer⟩ := getClient_eq_some hget
      exact ⟨c, hc, hpeer, rfl, hloaded⟩
  clients := h.clients
  distinct := h.distinct
  noEnv := h.noEnv

theorem Inv.leave (h : s.Inv order none) :
    Inv order none { s with
      clients := s.clients.filter fun c => c.peerId ≠ peerId
      players := s.players.filter fun p => p.2 ≠ peerId } where
  priv := h.priv
  told name dinv hlookup hclean c hc :=
    h.told name dinv hlookup hclean c (List.mem_of_mem_filter hc)
  owner := h.owner
  players p hp := by
    obtain ⟨hp, hne⟩ := List.mem_filter.mp hp
    obtain ⟨c, hc, hpeer, hrest⟩ := h.players p hp
    refine ⟨c, List.mem_filter.mpr ⟨hc, ?_⟩, hpeer, hrest⟩
    rwa [hpeer]
  clients c hc := h.clients c (List.mem_of_mem_filter hc)
  distinct := h.distinct.sublist (List.filter_sublist.map _)
  noEnv henv := by
    change s.clients.filter _ = []
    rw [h.noEnv henv]
    rfl

theorem Inv.exec {op : DetachedOp} (h : s.Inv order none) (hok : s.Ok op)
    (hs : s.exec order op = some s') : Inv order none s' := by
  cases op with
  | setEnv =>
    obtain rfl := Option.some.inj hs
    exact ⟨h.priv, h.told, h.owner, h.players, h.clients, h.distinct, nofun⟩
  | create name player =>
    obtain rfl := Option.some.inj hs
    exact (h.create hok).1
  | remove name =>
    obtain rfl := Option.some.inj hs
    exact h.remove
  | modify name idef m =>
    simp only [DetachedState.exec] at hs
    split at hs
    · cases hs
    · rename_i dinv hlookup
      split at hs
      · cases hs
      · rename_i inventory happly
        obtain rfl := Option.some.inj hs
        exact h.modify hlookup (hok dinv hlookup) happly
  | connect peerId name =>
    simp only [DetachedState.exec] at hs
    split_ifs at hs with hcan
    obtain rfl := Option.some.inj hs
    exact h.connect hcan.1 hcan.2.1 hcan.2.2.1 hcan.2.2.2
  | init2 peerId =>
    simp only [DetachedState.exec] at hs
    split at hs
    · cases hs
    · rename_i c hget
      split_ifs at hs
      obtain rfl := Option.some.inj hs
      exact h.init2 hget hok
  | emergePlayer peerId =>
    simp only [DetachedState.exec] at hs
    split at hs
    · cases hs
    · rename_i c hget
      split_ifs at hs with hcan
      obtain rfl := Option.some.inj hs
      exact h.emergePlayer hget hcan.1
  | clientReady peerId =>
    simp only [DetachedState.exec] at hs
    split_ifs at hs with hmem
    obtain rfl := Option.some.inj hs
    obtain ⟨p, hp, rfl⟩ := List.mem_map.mp (List.contains_iff_mem.mp hmem)
    obtain ⟨c₀, hc₀, hpeer, -, hloaded⟩ := h.players p hp
    have hactive : ClientState.definitionsSent ≤ ClientState.active := by decide
    refine h.setState hactive (.inr fun c hc heq => ?_)
    rw [h.eq_of_peerId hc₀ hc (heq.trans hpeer.symm)]
    exact hloaded
  | leave peerId =>
    obtain rfl := Option.some.inj hs
    exact h.leave
  | step =>
    simp only [DetachedState.exec] at hs
    split_ifs at hs with hplayers
    · exact Option.some.inj hs ▸ h
    · obtain rfl := Option.some.inj hs
      exact (h.step hok hplayers).1

theorem inv_of_run (h : (lts order).Run Ok s) : s.Inv order none := by
  refine Lts.Run.invariant (I := fun s => s.Inv order none) ?_ ?_ h
  · rintro s rfl
    exact .init
  · exact fun s op s' hI hok hs => hI.exec hok hs

/-- In every run under the condition nothing is sent to others than the owner, and behind every
creation and every step those who may access an inventory know it. -/
theorem private_inSync_of_run (h : (lts order).Run Ok s) :
    s.Private ∧ ∀ op s', s.Ok op → (lts order).step s op s' →
      (∀ name player, op = .create name player → InSync order s' name) ∧
      (op = .step → ∀ name, InSync order s' name) := by
  have hinv := inv_of_run h
  refine ⟨hinv.priv, fun op s' hok hs => ⟨?_, ?_⟩⟩
  · rintro name player rfl
    obtain rfl := Option.some.inj hs
    exact (hinv.create hok).2
  · rintro rfl name
    change s.exec order .step = some s' at hs
    simp only [DetachedState.exec] at hs
    split_ifs at hs with hplayers
    · obtain rfl := Option.some.inj hs
      intro dinv _ player peerId hplayer
      have hmem := mem_of_getPlayer hplayer
      rw [hplayers] at hmem
      exact absurd hmem List.not_mem_nil
    · obtain rfl := Option.some.inj hs
      exact (hinv.step hok hplayers).2 name

/-! ## An owner looked up by the name of the inventory -/

def bob : ByteString := bytes "bob"

def alice : ByteString := bytes "alice"

def joined : DetachedState where
  hasEnv := true
  players := [(bob, 2)]
  clients := [{ peerId := 2, name := bob, state := .active }]

theorem run_joined {ok : DetachedState → DetachedOp → Prop}
    (hok : ∀ s op, s.detachedInventories = ∅ → (∀ name player, op ≠ .create name player) →
      ok s op) : (lts order).Run ok joined := by
  have henv : (lts order).Run ok { hasEnv := true } :=
    .step (a := .setEnv) (.init rfl) (hok _ _ rfl nofun) rfl
  have hconnect : (lts order).Run ok { hasEnv := true, clients := [{ peerId := 2, name := bob }] } :=
    .step (a := .connect 2 bob) henv (hok _ _ rfl nofun) rfl
  have hinit2 := Lts.Run.step (a := .init2 2) hconnect (hok _ _ rfl nofun) rfl
  have hemerge := Lts.Run.step (a := .emergePlayer 2) hinit2 (hok _ _ rfl nofun) rfl
  exact .step (a := .clientReady 2) hemerge (hok _ _ rfl nofun) rfl

theorem step_create (s : DetachedState) (name player : ByteString) :
    (lts order).step s (.create name player) (s.createDetachedInventory order name player) := rfl

/-- Bob gets the inventory that bears his name. -/
theorem private_inSync_of_run_bob : ∃ s : DetachedState,
    s.deliveries.map Delivery.player = [bob] ∧ s.Private := by
  have hjoined : (lts fun _ _ => InventoryLists.anyOrder).Run Ok joined := by
    refine run_joined fun s op hempty hcreate => ?_
    have hnone : ∀ name dinv, s.detachedInventories.lookup name ≠ some dinv := by
      intro name dinv
      rw [hempty]
      exact nofun
    cases op with
    | create name player => exact absurd rfl (hcreate name player)
    | modify name idef m => exact fun dinv hlookup => absurd hlookup (hnone name dinv)
    | init2 peerId => exact fun _ _ name dinv hlookup => absurd hlookup (hnone name dinv)
    | step => exact fun _ name dinv hlookup => absurd hlookup (hnone name dinv)
    | setEnv | remove | connect | emergePlayer | clientReady | leave => trivial
  have hcreate : Ok joined (.create bob bob) := by
    intro _
    refine ⟨rfl, fun c hc _ _ => ?_⟩
    rw [List.mem_singleton.mp hc]
    rfl
  exact ⟨_, rfl, (private_inSync_of_run (.step hjoined hcreate (step_create _ _ _))).1⟩

/-- Bob gets the inventory of Alice that bears his name. -/
theorem not_private : ¬∀ (order : ℕ → ℕ → MetadataOrder) (s : DetachedState),
    (lts order).Reach s → s.Private := by
  intro h
  have hrun : (lts fun _ _ => InventoryLists.anyOrder).Reach
      (joined.createDetachedInventory (fun _ _ => InventoryLists.anyOrder) bob alice) :=
    .step (run_joined fun _ _ _ _ => trivial) trivial (step_create _ _ _)
  have hprivate := h _ _ hrun _ List.mem_cons_self alice rfl nofun
  exact absurd hprivate (by decide)

end DetachedState

end Freeminer.Server
