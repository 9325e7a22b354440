import Mathlib.Data.Finmap
import Freeminer.Login.RemoteClient
import Freeminer.Network.NetworkPacket

/-! The passwords that are stored (`auth.cpp`, `base64.cpp`): an SRP verifier with its salt, or the
hash of older versions. -/

namespace Freeminer.Login

def isBase64 (c : UInt8) : Bool :=
  decide ((48 ≤ c ∧ c ≤ 57) ∨ (65 ≤ c ∧ c ≤ 90) ∨ (97 ≤ c ∧ c ≤ 122) ∨ c = 43 ∨ c = 47)

def base64CharsPadding1 : ByteString := bytes "AEIMQUYcgkosw048"

def base64CharsPadding2 : ByteString := bytes "AQgw"

def base64IsValid (s : ByteString) : Bool :=
  let body := s.takeWhile isBase64
  let padding := 3 - (body.length + 3) % 4
  let rest := s.dropWhile isBase64
  if (padding = 1 ∧ base64CharsPadding1.contains (body.getLastD 0) = false) ∨
      (padding = 2 ∧ base64CharsPadding2.contains (body.getLastD 0) = false) ∨ padding = 3 then false
  else if rest = [] then true
  else rest.all (· = 61) && decide (padding = rest.length)

/-- What `handleCommand_Init` makes of a stored password. -/
inductive PasswordKind where
  | srp | unknownMechcode | legacy | invalidBase64
  deriving DecidableEq

def passwordKind (encpwd : ByteString) : PasswordKind :=
  match strSplit encpwd 35 with
  | [_, mech, _, _] => if mech = bytes "1" then .srp else .unknownMechcode
  | _ => if base64IsValid encpwd then .legacy else .invalidBase64

/-- `base64_encode` and `base64_decode`, which nothing here depends on. -/
structure Base64 where
  encode : ByteString → ByteString
  decode : ByteString → ByteString

def Base64.encodeSrpVerifier (b : Base64) (verifier salt : ByteString) : ByteString :=
  bytes "#1#" ++ b.encode salt ++ bytes "#" ++ b.encode verifier

def Base64.decodeSrpVerifierAndSalt (b : Base64) (encoded : ByteString) :
    Option (ByteString × ByteString) :=
  match strSplit encoded 35 with
  | [_, mech, salt, verifier] =>
    if mech = bytes "1" ∧ base64IsValid salt = true ∧ base64IsValid verifier = true then
      some (b.decode verifier, b.decode salt)
    else none
  | _ => none

/-! The handlers of the packets of the login (`serverpackethandler.cpp`): what each makes of the
client it is from, and of the accounts. -/

open Lib Network

structure ServerConfig where
  isSingleplayer : Bool := false
  enableAnyName : Bool := false
  disallowEmptyPassword : Bool := false
  defaultPassword : ByteString := []
  latestProtocolVersion : UInt16 := 52
  /-- `getProtocolVersionMin` -/
  protocolVersionMin : UInt16 := 37
  /-- Whether the account database writes over an account (files and LevelDB), or throws. -/
  createAuthOverwrites : Bool
  base64 : Base64
  /-- Whether `srp_verifier_new` gives `bytes_B`, which its safety check can forbid. -/
  srpSafe : SRPVerifier → Bool
  /-- Whether `srp_verifier_verify_session` gives `bytes_HAMK`. -/
  srpVerifies : SRPVerifier → ByteString → Bool

/-- What the rest of the server answers while a packet is handled. -/
structure Answers where
  peerKnown : Bool := true
  banned : Bool := false
  playerConnected : Bool := false
  prejoinDenied : Bool := false
  userLimitReached : Bool := false
  playerEmerged : Bool := true
  setPasswordSucceeds : Bool := true
  /-- The verifier and the salt of `gen_srp_v`. -/
  generated : ByteString × ByteString := ([], [])
  secret : ℕ := 0

inductive Thrown where
  | packetError (what : ByteString)
  | clientStateError
  | clientNotFound
  | databaseError
  /-- Not an exception: a null pointer is read. -/
  | nullPointer

abbrev Accounts := ByteString → Option ByteString

structure Handled where
  auth : Accounts
  client : RemoteClient
  thrown : Option Thrown := none

/-- `c_str` of a name. -/
def cName (name : ByteString) : ByteString := (cut 0 name).1

/-- `m_clients.event` -/
def event (auth : Accounts) (c : RemoteClient) (e : ClientStateEvent) : Handled :=
  match c.notifyEvent e with
  | some c => ⟨auth, c, none⟩
  | none => ⟨auth, c, some .clientStateError⟩

/-- `DenyAccess` -/
def denyAccess (auth : Accounts) (c : RemoteClient) : Handled := ⟨auth, c.deny, none⟩

/-! ### Fields of a packet -/

def readFields : List ReadOp → NetworkPacket → Except ByteString (List Value × NetworkPacket)
  | [], pkt => .ok ([], pkt)
  | op :: ops, pkt =>
    match (pkt.read op).value with
    | .error e => .error e
    | .ok v =>
      match readFields ops (pkt.read op).packet with
      | .error e => .error e
      | .ok (vs, pkt) => .ok (v :: vs, pkt)

def textAt (vs : List Value) (i : ℕ) : ByteString :=
  match vs[i]? with
  | some (.text s) => s
  | _ => []

def natAt (vs : List Value) (i : ℕ) : ℕ :=
  match vs[i]? with
  | some (.nat n) => n
  | _ => 0

/-! ### `TOSERVER_INIT` -/

/-- The answer with a `TOCLIENT_HELLO`. -/
def sendHello (auth : Accounts) (c : RemoteClient) (authMechs : ℕ) : Handled :=
  event auth { c with allowedAuthMechs := authMechs } .hello

def composeAuthMethods (cfg : ServerConfig) (ans : Answers) (auth : Accounts) (c : RemoteClient) :
    Handled :=
  let c := { c with chosenMech := AUTH_MECHANISM_NONE }
  match auth (cName c.name) with
  | some encpwd =>
    match passwordKind encpwd with
    | .srp => sendHello auth { c with encPwd := encpwd } AUTH_MECHANISM_SRP
    | .legacy => sendHello auth { c with encPwd := encpwd } AUTH_MECHANISM_LEGACY_PASSWORD
    | .unknownMechcode => denyAccess auth c
    | .invalidBase64 => denyAccess auth c
  | none =>
    if cfg.isSingleplayer = true ∨ cfg.defaultPassword.length = 0 then
      sendHello auth c AUTH_MECHANISM_FIRST_SRP
    else
      sendHello auth
        { c with
          encPwd := cfg.base64.encodeSrpVerifier ans.generated.1 ans.generated.2
          createPlayerOnAuthSuccess := true }
        AUTH_MECHANISM_SRP

def PLAYERNAME_SIZE : ℕ := 20

def PLAYERNAME_ALLOWED_CHARS : ByteString :=
  bytes "abcdefghijklmnopqrstuvwxyzABCDEFGHIJKLMNOPQRSTUVWXYZ0123456789-_"

/-- `strcasecmp` with a name in lower case gives 0. -/
def sameIgnoringCase (name lower : ByteString) : Bool :=
  decide ((cName name).map (fun c => if 65 ≤ c ∧ c ≤ 90 then c + 32 else c) = lower)

def nameDenied (cfg : ServerConfig) (ans : Answers) (othersHelloSent : Bool) (playerName : ByteString) :
    Bool :=
  decide (playerName.length = 0 ∨ PLAYERNAME_SIZE < playerName.length) ||
    (!cfg.enableAnyName && !playerName.all PLAYERNAME_ALLOWED_CHARS.contains) ||
    (cfg.isSingleplayer && othersHelloSent) ||
    (!cfg.isSingleplayer && sameIgnoringCase playerName (bytes "singleplayer")) ||
    ans.playerConnected

def negotiate (cfg : ServerConfig) (minVersion maxVersion : UInt16) : UInt16 :=
  if (37 : UInt16) ≤ maxVersion ∨ minVersion ≤ cfg.latestProtocolVersion then
    if cfg.latestProtocolVersion < maxVersion then cfg.latestProtocolVersion else maxVersion
  else 0

/-- The checks of `TOSERVER_INIT` on what the packet says. -/
def checkInit (cfg : ServerConfig) (ans : Answers) (othersHelloSent : Bool) (auth : Accounts)
    (c : RemoteClient) (vs : List Value) : Handled :=
  let serializationVer := min (UInt8.ofNat (natAt vs 0)) 29
  let netProtoVersion := negotiate cfg (UInt16.ofNat (natAt vs 2)) (UInt16.ofNat (natAt vs 3))
  let negotiated := { c with pendingSerializationVersion := serializationVer, netProtoVersion }
  let named := { negotiated with name := textAt vs 4 }
  if serializationVer < 24 then denyAccess auth c
  else if netProtoVersion < cfg.protocolVersionMin ∨ cfg.latestProtocolVersion < netProtoVersion then
    denyAccess auth negotiated
  else if nameDenied cfg ans othersHelloSent (textAt vs 4) then denyAccess auth negotiated
  else if ans.prejoinDenied || ans.userLimitReached then denyAccess auth named
  else composeAuthMethods cfg ans auth named

def handleCommandInit (cfg : ServerConfig) (ans : Answers) (othersHelloSent : Bool)
    (auth : Accounts) (c : RemoteClient) (pkt : NetworkPacket) : Handled :=
  if c.state < .created then ⟨auth, c, some .clientNotFound⟩
  else if ans.peerKnown = false then ⟨auth, c, none⟩
  else if .created < c.state then ⟨auth, c, none⟩
  else if ans.banned then denyAccess auth c
  else
    match readFields [.field .u8, .field .u16, .field .u16, .field .u16, .string] pkt with
    | .error e => ⟨auth, c, some (.packetError e)⟩
    | .ok (vs, _) => checkInit cfg ans othersHelloSent auth c vs

/-! ### The other packets of the start -/

def handleCommandInit2 (auth : Accounts) (c : RemoteClient) (pkt : NetworkPacket) : Handled :=
  if c.state ≠ .awaitingInit2 then ⟨auth, c, none⟩
  else
    let h := event auth c .gotInit2
    match h.thrown with
    | some e => ⟨auth, h.client, some e⟩
    | none =>
      if 0 < pkt.datasize then
        match readFields [.string] pkt with
        | .error e => ⟨auth, h.client, some (.packetError e)⟩
        | .ok _ => event auth h.client .setDefinitionsSent
      else event auth h.client .setDefinitionsSent

def handleCommandClientReady (ans : Answers) (auth : Accounts) (c : RemoteClient)
    (pkt : NetworkPacket) : Handled :=
  if c.state < .created then ⟨auth, c, some .clientNotFound⟩
  else
    match readFields [.field .u8, .field .u8, .field .u8, .field .u8, .string] pkt with
    | .error e => ⟨auth, c, some (.packetError e)⟩
    | .ok _ =>
      if ans.userLimitReached then denyAccess auth c
      else if ans.playerEmerged = false then denyAccess auth c
      else event auth c .setClientReady

/-! ### Passwords -/

/-- `createAuth` -/
def createAuth (cfg : ServerConfig) (auth : Accounts) (name password : ByteString) :
    Except Thrown Accounts :=
  if (auth name).isSome && !cfg.createAuthOverwrites then .error .databaseError
  else .ok (Function.update auth name (some password))

/-- `acceptAuth` -/
def acceptAuth (auth : Accounts) (c : RemoteClient) (forSudoMode : Bool) : Handled :=
  if forSudoMode then event auth c .sudoSuccess else event auth c .authAccept

def handleCommandFirstSrp (cfg : ServerConfig) (ans : Answers) (auth : Accounts) (c : RemoteClient)
    (pkt : NetworkPacket) : Handled :=
  match readFields [.string, .string, .field .u8] pkt with
  | .error e => ⟨auth, c, some (.packetError e)⟩
  | .ok (vs, _) =>
    let encpwd := cfg.base64.encodeSrpVerifier (textAt vs 1) (textAt vs 0)
    let emptyDisallowed := !cfg.isSingleplayer && decide (natAt vs 2 = 1) && cfg.disallowEmptyPassword
    if c.state = .helloSent then
      if c.isMechAllowed AUTH_MECHANISM_FIRST_SRP = false then denyAccess auth c
      else if emptyDisallowed then denyAccess auth c
      else if (auth c.name).isSome then denyAccess auth c
      else
        match createAuth cfg auth c.name encpwd with
        | .error e => ⟨auth, c, some e⟩
        | .ok auth =>
          acceptAuth auth
            { c.setEncryptedPassword encpwd with shown := c.shown ++ [.created c.name] } false
    else if c.state < .sudoMode then ⟨auth, c, none⟩
    else
      let h := event auth c .sudoLeave
      match h.thrown with
      | some e => ⟨auth, h.client, some e⟩
      | none =>
        if emptyDisallowed then h
        else if ans.setPasswordSucceeds then
          ⟨Function.update auth c.name (some encpwd), h.client.setEncryptedPassword encpwd, none⟩
        else h

/-- The verifier and the salt that a login by this method checks against. -/
def verifierAndSalt (cfg : ServerConfig) (ans : Answers) (c : RemoteClient) (basedOn : ℕ) :
    Option (ByteString × ByteString) :=
  if basedOn = 0 then some ans.generated else cfg.base64.decodeSrpVerifierAndSalt c.encPwd

/-- The verifier is made, and `bytes_B` is sent. -/
def startSrp (cfg : ServerConfig) (auth : Accounts) (c : RemoteClient) (authData : SRPVerifier)
    (wantSudo : Bool) : Handled :=
  let c := { c with authData := some authData }
  if cfg.srpSafe authData = false then
    if wantSudo then ⟨auth, c.resetChosenMech, none⟩ else denyAccess auth c
  else ⟨auth, c, none⟩

def handleCommandSrpBytesA (cfg : ServerConfig) (ans : Answers) (auth : Accounts)
    (c : RemoteClient) (pkt : NetworkPacket) : Handled :=
  let wantSudo := decide (c.state = .active)
  if ¬(c.state = .helloSent ∨ c.state = .active) then ⟨auth, c, none⟩
  else if c.chosenMech ≠ AUTH_MECHANISM_NONE then
    if wantSudo then ⟨auth, c, none⟩ else denyAccess auth c
  else
    match readFields [.string, .field .u8] pkt with
    | .error e => ⟨auth, c, some (.packetError e)⟩
    | .ok (vs, _) =>
      let chosen := if natAt vs 1 = 0 then AUTH_MECHANISM_LEGACY_PASSWORD else AUTH_MECHANISM_SRP
      if c.isMechAllowed chosen = false then
        if wantSudo then ⟨auth, c, none⟩ else denyAccess auth c
      else
        match verifierAndSalt cfg ans c (natAt vs 1) with
        | none => denyAccess auth { c with chosenMech := chosen }
        | some (verifier, salt) =>
          startSrp cfg auth { c with chosenMech := chosen }
            { username := cName c.name, salt, verifier, bytesA := textAt vs 0, secret := ans.secret }
            wantSudo

def sessionKeyLength : ℕ := 32

def authSucceeded (cfg : ServerConfig) (auth : Accounts) (c : RemoteClient) (wantSudo : Bool) :
    Handled :=
  if c.createPlayerOnAuthSuccess then
    match createAuth cfg auth c.name c.encPwd with
    | .error e => ⟨auth, c, some e⟩
    | .ok auth =>
      if (auth c.name).isNone then denyAccess auth c
      else acceptAuth auth { c with createPlayerOnAuthSuccess := false } wantSudo
  else acceptAuth auth c wantSudo

def handleCommandSrpBytesM (cfg : ServerConfig) (auth : Accounts) (c : RemoteClient)
    (pkt : NetworkPacket) : Handled :=
  let wantSudo := decide (c.state = .active)
  if ¬(c.state = .helloSent ∨ c.state = .active) then ⟨auth, c, none⟩
  else if c.chosenMech ≠ AUTH_MECHANISM_SRP ∧ c.chosenMech ≠ AUTH_MECHANISM_LEGACY_PASSWORD then
    if wantSudo then ⟨auth, c, none⟩ else denyAccess auth c
  else
    match readFields [.string] pkt with
    | .error e => ⟨auth, c, some (.packetError e)⟩
    | .ok (vs, _) =>
      match c.authData with
      | none => ⟨auth, c, some .nullPointer⟩
      | some authData =>
        if sessionKeyLength ≠ (textAt vs 0).length then denyAccess auth c
        else if cfg.srpVerifies authData (textAt vs 0) then
          authSucceeded cfg auth
            { c with shown := c.shown ++ [.proof authData (textAt vs 0) wantSudo] } wantSudo
        else if cfg.isSingleplayer && sameIgnoringCase c.name (bytes "singleplayer") then
          authSucceeded cfg auth c wantSudo
        else if wantSudo then ⟨auth, c.resetChosenMech, none⟩
        else denyAccess auth c

/-! `Server::ProcessData` and `Server::Receive`: which packets reach a handler, and what the server is
after a packet, or after what else happens to its clients. -/

inductive ToServerConnectionState where
  | notConnected | startup | inGame | all
  deriving DecidableEq

/-- The handlers of the start, and all others in one. -/
inductive Handler where
  | init | initFm | drawcontrol | init2 | gotBlocks | requestMedia | clientReady | firstSrp
  | srpBytesA | srpBytesM | null | game

def TOSERVER_NUM_MSG_TYPES : ℕ := 0x54

/-- The commands of `TOSERVER_STATE_INGAME`. -/
def inGameCommands : List ℕ :=
  [0x04, 0x17, 0x18, 0x19, 0x23, 0x25, 0x31, 0x32, 0x35, 0x37, 0x39, 0x3a, 0x3b, 0x3c, 0x41, 0x53]

def toServerCommandTable : ℕ → ToServerConnectionState × Handler
  | 0x02 => (.notConnected, .init)
  | 0x03 => (.notConnected, .initFm)
  | 0x05 => (.notConnected, .drawcontrol)
  | 0x11 => (.notConnected, .init2)
  | 0x24 => (.startup, .gotBlocks)
  | 0x40 => (.startup, .requestMedia)
  | 0x43 => (.startup, .clientReady)
  | 0x50 => (.notConnected, .firstSrp)
  | 0x51 => (.notConnected, .srpBytesA)
  | 0x52 => (.notConnected, .srpBytesM)
  | command => if command ∈ inGameCommands then (.inGame, .game) else (.all, .null)

structure Server where
  clients : Finmap fun _ : ℕ => RemoteClient := ∅
  auth : Accounts
  overload : ℕ := 0

/-- What `ProcessData` does with a packet. -/
inductive Dispatch where
  | ignored
  | thrown (e : Thrown)
  | run (h : Handler)

/-- The part of `ProcessData` for the commands that need a client. -/
def RemoteClient.processConnected (c : RemoteClient) (command : ℕ) : Dispatch :=
  if c.serializationVersion = SER_FMT_VER_INVALID then .ignored
  else if (toServerCommandTable command).1 = .startup then .run (toServerCommandTable command).2
  else if c.state < .active then .ignored
  else .run (toServerCommandTable command).2

namespace Server

/-- `getClientNoEx` -/
def getClientNoEx (s : Server) (peer : ℕ) (stateMin : ClientState) : Option RemoteClient :=
  (s.clients.lookup peer).filter fun c => decide (stateMin ≤ c.state)

def processData (s : Server) (peer command : ℕ) : Dispatch :=
  if TOSERVER_NUM_MSG_TYPES ≤ command then .ignored
  else if s.overload ≠ 0 ∧ (command = 0x23 ∨ command = 0x05) then .ignored
  else if 30000 < s.overload ∧ command = 0x39 then .ignored
  else if (toServerCommandTable command).1 = .notConnected then .run (toServerCommandTable command).2
  else
    match s.getClientNoEx peer .initDone with
    | none => .thrown .clientNotFound
    | some c => c.processConnected command

end Server

/-- The handlers of `toServerCommandTable`; those of the game do nothing to the login. -/
def handleCommand (cfg : ServerConfig) (ans : Answers) (othersHelloSent : Bool) (auth : Accounts)
    (c : RemoteClient) (pkt : NetworkPacket) : Handler → Handled
  | .init => handleCommandInit cfg ans othersHelloSent auth c pkt
  | .initFm => if c.state < .created then ⟨auth, c, some .clientNotFound⟩ else ⟨auth, c, none⟩
  | .init2 => handleCommandInit2 auth c pkt
  | .clientReady => handleCommandClientReady ans auth c pkt
  | .firstSrp => handleCommandFirstSrp cfg ans auth c pkt
  | .srpBytesA => handleCommandSrpBytesA cfg ans auth c pkt
  | .srpBytesM => handleCommandSrpBytesM cfg auth c pkt
  | .drawcontrol => ⟨auth, c, none⟩
  | .gotBlocks => ⟨auth, c, none⟩
  | .requestMedia => ⟨auth, c, none⟩
  | .null => ⟨auth, c, none⟩
  | .game => ⟨auth, c, none⟩

/-- What `Receive` makes of the client when an exception comes out of the handler. -/
def Handled.caught (h : Handled) : RemoteClient :=
  match h.thrown with
  | some .clientStateError => h.client.deny
  | _ => h.client

inductive ServerEvent where
  | peerAdded (peer : ℕ)
  | deletingPeer (peer : ℕ)
  | packet (peer : ℕ) (pkt : NetworkPacket) (ans : Answers)
  /-- A kick, by a mod or by the server itself. -/
  | denyAccess (peer : ℕ)
  /-- A mod, or a chat command, sets or deletes an account. -/
  | script (name : ByteString) (password : Option ByteString)
  | overload (n : ℕ)

namespace Server

variable (cfg : ServerConfig)

/-- A packet that `Receive` gets; a handler that finds no client does nothing. -/
def receive (s : Server) (peer : ℕ) (pkt : NetworkPacket) (ans : Answers) : Server :=
  match s.processData peer pkt.command.toNat with
  | .run handler =>
    match s.clients.lookup peer with
    | some c =>
      let h := handleCommand cfg ans
        (s.clients.any fun _ c => decide (ClientState.helloSent ≤ c.state)) s.auth c pkt handler
      { s with clients := s.clients.insert peer h.caught, auth := h.auth }
    | none => s
  | .ignored => s
  | .thrown _ => s

def step (s : Server) : ServerEvent → Server
  | .peerAdded peer =>
    if (s.clients.lookup peer).isSome then s
    else { s with clients := s.clients.insert peer {} }
  | .deletingPeer peer => { s with clients := s.clients.erase peer }
  | .packet peer pkt ans => s.receive cfg peer pkt ans
  | .denyAccess peer =>
    match s.clients.lookup peer with
    | some c => { s with clients := s.clients.insert peer c.deny }
    | none => s
  | .script name password => { s with auth := Function.update s.auth name password }
  | .overload n => { s with overload := n }

def run (s : Server) (events : List ServerEvent) : Server := events.foldl (step cfg) s

end Server

end Freeminer.Login
