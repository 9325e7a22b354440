import Freeminer.Inventory.SyncText
import Freeminer.Login.RemoteClient
import Freeminer.Mtp.Packet

/-! `ServerInventoryManager` and what the server sends of the detached inventories: on creation and
removal, to a client that loads, and to all in every step of the environment. -/

namespace Freeminer.Server

open Lib Inventory Login
open Mtp (SessionT PEER_ID_INEXISTENT)

structure DetachedInventory where
  inventory : TrackedInventory := {}
  owner : ByteString := []
  /-- History: the player that the inventory was created for. -/
  createdFor : Option ByteString := none

/-- `checkDetachedInventoryAccess` -/
def DetachedInventory.CheckAccess (dinv : DetachedInventory) (player : ByteString) : Prop :=
  dinv.owner = [] ∨ dinv.owner = player

instance (dinv : DetachedInventory) : DecidablePred dinv.CheckAccess :=
  fun _ => inferInstanceAs (Decidable (_ ∨ _))

/-- `TOCLIENT_DETACHED_INVENTORY`: the text of the inventory, or nothing when it is gone. -/
structure DetachedPacket where
  name : ByteString
  update : Option ByteString

/-- What the broadcasts read of a `RemoteClient`. -/
structure DetachedClient where
  peerId : SessionT
  name : ByteString
  state : ClientState := .awaitingInit2
  /-- History: what the client was last sent of each inventory. -/
  told : ByteString → Option ByteString := fun _ => none

/-- History: a packet on its way to the client of a player. -/
structure Delivery where
  player : ByteString
  createdFor : Option ByteString
  packet : DetachedPacket

structure DetachedState where
  detachedInventories : AList fun _ : ByteString => DetachedInventory := ∅
  /-- `m_env`, which the manager gets when the mods are loaded. -/
  hasEnv : Bool := false
  /-- The players of the environment. -/
  players : List (ByteString × SessionT) := []
  clients : List DetachedClient := []
  deliveries : List Delivery := []

namespace DetachedState

/-- `getPlayer` -/
def getPlayer (s : DetachedState) (name : ByteString) : Option SessionT := s.players.lookup name

/-- The clients that a packet to `peerId` reaches: `sendToAll` reaches those that are active. -/
def Recipient (peerId : SessionT) (c : DetachedClient) : Prop :=
  if peerId = PEER_ID_INEXISTENT then .active ≤ c.state else c.peerId = peerId

instance (peerId : SessionT) : DecidablePred (Recipient peerId) := fun _ =>
  inferInstanceAs (Decidable (ite _ _ _))

def DetachedClient.tell (pkt : DetachedPacket) (c : DetachedClient) : DetachedClient :=
  { c with told := Function.update c.told pkt.name pkt.update }

def send (pkt : DetachedPacket) (createdFor : Option ByteString) (peerId : SessionT)
    (s : DetachedState) : DetachedState :=
  { s with
    clients := s.clients.map fun c =>
      if Recipient peerId c then DetachedClient.tell pkt c else c
    deliveries := s.deliveries ++
      (s.clients.filter (Recipient peerId)).map fun c => ⟨c.name, createdFor, pkt⟩ }

variable (order : ℕ → ℕ → MetadataOrder)

/-- `sendDetachedInventory` of an inventory that is there. -/
def sendDetachedInventory (dinv : DetachedInventory) (name : ByteString) (peerId : SessionT)
    (s : DetachedState) : DetachedState :=
  let s := s.send ⟨name, some (dinv.inventory.serialize order false)⟩ dinv.createdFor peerId
  let sent := { dinv with inventory := dinv.inventory.setModified false }
  { s with detachedInventories := s.detachedInventories.insert name sent }

/-- `createDetachedInventory`; the owner of an inventory made anew without one stays. -/
def createDetachedInventory (name player : ByteString) (s : DetachedState) : DetachedState :=
  let owner := if player ≠ [] then player
    else ((s.detachedInventories.lookup name).map DetachedInventory.owner).getD []
  let dinv : DetachedInventory :=
    { owner, createdFor := if player ≠ [] then some player else none }
  let s := { s with detachedInventories := s.detachedInventories.insert name dinv }
  if !s.hasEnv then s
  else if player ≠ [] then
    match s.getPlayer name with
    | none => s
    | some peerId => s.sendDetachedInventory order dinv name peerId
  else s.sendDetachedInventory order dinv name PEER_ID_INEXISTENT

def removeDetachedInventory (name : ByteString) (s : DetachedState) : DetachedState :=
  match s.detachedInventories.lookup name with
  | none => s
  | some dinv =>
    let s :=
      if !s.hasEnv then s
      else if dinv.owner ≠ [] then
        match s.getPlayer dinv.owner with
        | none => s
        | some peerId => s.send ⟨name, none⟩ dinv.createdFor peerId
      else s.send ⟨name, none⟩ dinv.createdFor PEER_ID_INEXISTENT
    { s with detachedInventories := s.detachedInventories.erase name }

/-- Whether `sendDetachedInventories` passes over an inventory. -/
def Skipped (peerName : ByteString) (incremental : Bool) (dinv : DetachedInventory) : Prop :=
  incremental = true ∧ dinv.inventory.checkModified = false ∨
    peerName ≠ [] ∧ dinv.owner ≠ [] ∧ peerName ≠ dinv.owner

instance (peerName : ByteString) (incremental : Bool) :
    DecidablePred (Skipped peerName incremental) := fun _ => inferInstanceAs (Decidable (_ ∨ _))

/-- The loop of `sendDetachedInventories` over the inventories `names`. -/
def sendInventories (peerId : SessionT) (peerName : ByteString) (incremental : Bool)
    (names : List ByteString) (s : DetachedState) : DetachedState :=
  names.foldl (fun s name =>
    match s.detachedInventories.lookup name with
    | none => s
    | some dinv =>
      if Skipped peerName incremental dinv then s
      else s.sendDetachedInventory order dinv name peerId) s

def sendDetachedInventories (peerId : SessionT) (peerName : ByteString) (incremental : Bool)
    (s : DetachedState) : DetachedState :=
  s.sendInventories order peerId peerName incremental s.detachedInventories.keys

/-! ## The server -/

def setState (peerId : SessionT) (state : ClientState) (s : DetachedState) : DetachedState :=
  { s with clients := s.clients.map fun c => if c.peerId = peerId then { c with state } else c }

def getClient (s : DetachedState) (peerId : SessionT) : Option DetachedClient :=
  s.clients.find? fun c => c.peerId = peerId

end DetachedState

inductive DetachedOp where
  /-- The mods are loaded. -/
  | setEnv
  | create (name player : ByteString)
  | remove (name : ByteString)
  | modify (name : ByteString) (idef : ItemDefManager) (m : TrackedInventory.Mutation)
  /-- The client of a player is let in. -/
  | connect (peerId : SessionT) (name : ByteString)
  /-- `handleCommand_Init2`, with the full send. -/
  | init2 (peerId : SessionT)
  /-- `handleCommand_ClientReady` up to `addPlayer`, and from there on. -/
  | emergePlayer (peerId : SessionT)
  | clientReady (peerId : SessionT)
  | leave (peerId : SessionT)
  | step

namespace DetachedState

variable (order : ℕ → ℕ → MetadataOrder)

def exec (s : DetachedState) : DetachedOp → Option DetachedState
  | .setEnv => some { s with hasEnv := true }
  | .create name player => some (s.createDetachedInventory order name player)
  | .remove name => some (s.removeDetachedInventory name)
  | .modify name idef m =>
    match s.detachedInventories.lookup name with
    | none => none
    | some dinv =>
      match dinv.inventory.apply idef m with
      | .error _ => none
      | .ok inventory =>
        let dinv := { dinv with inventory }
        some { s with detachedInventories := s.detachedInventories.insert name dinv }
  | .connect peerId name =>
    if s.hasEnv ∧ peerId ≠ PEER_ID_INEXISTENT ∧ name ≠ [] ∧ s.getClient peerId = none then
      some { s with clients := s.clients ++ [{ peerId, name }] }
    else none
  | .init2 peerId =>
    match s.getClient peerId with
    | none => none
    | some c =>
      if c.state ≠ .awaitingInit2 then none
      else some ((s.setState peerId .definitionsSent).sendDetachedInventories order peerId c.name
        false)
  | .emergePlayer peerId =>
    match s.getClient peerId with
    | none => none
    | some c =>
      if .definitionsSent ≤ c.state ∧ s.getPlayer c.name = none then
        some { s with players := s.players ++ [(c.name, peerId)] }
      else none
  | .clientReady peerId =>
    if (s.players.map Prod.snd).contains peerId then some (s.setState peerId .active) else none
  | .leave peerId => some { s with
      clients := s.clients.filter fun c => c.peerId ≠ peerId
      players := s.players.filter fun p => p.2 ≠ peerId }
  -- send outdated detached inventories
  | .step =>
    if s.players = [] then some s
    else some (s.sendDetachedInventories order PEER_ID_INEXISTENT [] true)

def lts : Lts DetachedState DetachedOp where
  init s := s = {}
  step s op s' := s.exec order op = some s'

/-! ## What is claimed -/

/-- The contents of an inventory created for a player were sent to no other. -/
def Private (s : DetachedState) : Prop :=
  ∀ d ∈ s.deliveries, ∀ owner, d.createdFor = some owner → d.packet.update ≠ none →
    d.player = owner

/-- Every player that may access the inventory was last sent what it is now. -/
def InSync (s : DetachedState) (name : ByteString) : Prop :=
  ∀ dinv, s.detachedInventories.lookup name = some dinv →
    ∀ player peerId, s.getPlayer player = some peerId → dinv.CheckAccess player →
      ∃ c ∈ s.clients, c.peerId = peerId ∧
        c.told name = some (dinv.inventory.serialize order false)

def DetachedClient.Loaded (c : DetachedClient) : Prop := .definitionsSent ≤ c.state

/-- Nobody past loading who may access the inventory is missed by a packet to `peerId`. -/
def Complete (s : DetachedState) (dinv : DetachedInventory) (peerId : SessionT) : Prop :=
  ∀ c ∈ s.clients, DetachedClient.Loaded c → dinv.CheckAccess c.name → Recipient peerId c

/-- A packet to `peerId` reaches only the player that the inventory was created for. -/
def Discreet (s : DetachedState) (dinv : DetachedInventory) (peerId : SessionT) : Prop :=
  ∀ owner, dinv.createdFor = some owner → ∀ c ∈ s.clients, Recipient peerId c → c.name = owner

def Ok (s : DetachedState) : DetachedOp → Prop
  | .create name player =>
    s.hasEnv = true →
    if player = [] then
      ∀ owner, (((s.detachedInventories.lookup name).map DetachedInventory.owner).getD []) = owner →
        s.Complete { owner } PEER_ID_INEXISTENT
    else
      match s.getPlayer name with
      -- the player is looked up by the name of the inventory
      | none => s.getPlayer player = none
      | some peerId => name = player ∧ s.Complete { owner := player } peerId
  | .modify name _ m =>
    ∀ dinv, s.detachedInventories.lookup name = some dinv → m.Marked dinv.inventory
  | .init2 peerId =>
    ∀ player, (s.getClient peerId).map DetachedClient.name = some player →
      ∀ name dinv, s.detachedInventories.lookup name = some dinv →
        dinv.inventory.checkModified = true → dinv.CheckAccess player → s.Complete dinv peerId
  | .step =>
    s.players ≠ [] → ∀ name dinv, s.detachedInventories.lookup name = some dinv →
      dinv.inventory.checkModified = true →
        s.Complete dinv PEER_ID_INEXISTENT ∧ s.Discreet dinv PEER_ID_INEXISTENT
  | _ => True

end DetachedState

end Freeminer.Server
