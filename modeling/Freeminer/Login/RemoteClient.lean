import Freeminer.Util.Serialize

/-! `RemoteClient` (`clientiface.cpp`): the state of a client, and how it changes with events. -/

namespace Freeminer.Login

inductive ClientState where
  | invalid | disconnecting | denied | created | helloSent | awaitingInit2 | initDone
  | definitionsSent | active | sudoMode
  deriving DecidableEq

namespace ClientState

def toNat : ClientState → ℕ
  | invalid => 0
  | disconnecting => 1
  | denied => 2
  | created => 3
  | helloSent => 4
  | awaitingInit2 => 5
  | initDone => 6
  | definitionsSent => 7
  | active => 8
  | sudoMode => 9

instance : LE ClientState := ⟨fun a b => a.toNat ≤ b.toNat⟩

instance : LT ClientState := ⟨fun a b => a.toNat < b.toNat⟩

instance (a b : ClientState) : Decidable (a ≤ b) :=
  inferInstanceAs (Decidable (a.toNat ≤ b.toNat))

instance (a b : ClientState) : Decidable (a < b) :=
  inferInstanceAs (Decidable (a.toNat < b.toNat))

end ClientState

inductive ClientStateEvent where
  | hello | authAccept | gotInit2 | setDenied | setDefinitionsSent | setClientReady | sudoSuccess
  | sudoLeave | disconnect

/-- What a verifier was made of, with the secret that the server chose for it. -/
structure SRPVerifier where
  username : ByteString
  salt : ByteString
  verifier : ByteString
  bytesA : ByteString
  secret : ℕ

inductive Shown where
  /-- The message verified, to log in or to enter sudo mode. -/
  | proof (auth : SRPVerifier) (bytesM : ByteString) (wantSudo : Bool)
  /-- The account was made for the client. -/
  | created (name : ByteString)

def AUTH_MECHANISM_NONE : ℕ := 0
def AUTH_MECHANISM_LEGACY_PASSWORD : ℕ := 1
def AUTH_MECHANISM_SRP : ℕ := 2
def AUTH_MECHANISM_FIRST_SRP : ℕ := 4

def SER_FMT_VER_INVALID : UInt8 := 255

structure RemoteClient where
  state : ClientState := .created
  name : ByteString := []
  serializationVersion : UInt8 := SER_FMT_VER_INVALID
  pendingSerializationVersion : UInt8 := SER_FMT_VER_INVALID
  netProtoVersion : UInt16 := 0
  encPwd : ByteString := []
  createPlayerOnAuthSuccess : Bool := false
  chosenMech : ℕ := AUTH_MECHANISM_NONE
  authData : Option SRPVerifier := none
  allowedAuthMechs : ℕ := 0
  /-- A record for the statements; the source keeps none. -/
  shown : List Shown := []

namespace RemoteClient

def resetChosenMech (c : RemoteClient) : RemoteClient :=
  { c with authData := none, chosenMech := AUTH_MECHANISM_NONE }

def isMechAllowed (c : RemoteClient) (mech : ℕ) : Bool := decide (c.allowedAuthMechs &&& mech ≠ 0)

def setEncryptedPassword (c : RemoteClient) (pwd : ByteString) : RemoteClient :=
  { c with encPwd := pwd, allowedAuthMechs := AUTH_MECHANISM_SRP }

/-- `notifyEvent`; a transition that is not there throws a `ClientStateError`. -/
def notifyEvent (c : RemoteClient) (event : ClientStateEvent) : Option RemoteClient :=
  match c.state, event with
  | .invalid, _ => some c
  | .created, .hello => some { c with state := .helloSent }
  | .created, .disconnect => some { c with state := .disconnecting }
  | .created, .setDenied => some { c with state := .denied }
  | .denied, _ => some c
  | .helloSent, .authAccept => some { c.resetChosenMech with state := .awaitingInit2 }
  | .helloSent, .disconnect => some { c with state := .disconnecting }
  | .helloSent, .setDenied => some { c.resetChosenMech with state := .denied }
  | .awaitingInit2, .gotInit2 =>
    some { c with state := .initDone, serializationVersion := c.pendingSerializationVersion }
  | .awaitingInit2, .disconnect => some { c with state := .disconnecting }
  | .awaitingInit2, .setDenied => some { c with state := .denied }
  | .initDone, .setDefinitionsSent => some { c with state := .definitionsSent }
  | .initDone, .disconnect => some { c with state := .disconnecting }
  | .initDone, .setDenied => some { c with state := .denied }
  | .definitionsSent, .setClientReady => some { c with state := .active }
  | .definitionsSent, .disconnect => some { c with state := .disconnecting }
  | .definitionsSent, .setDenied => some { c with state := .denied }
  | .active, .setDenied => some { c with state := .denied }
  | .active, .disconnect => some { c with state := .disconnecting }
  | .active, .sudoSuccess => some { c.resetChosenMech with state := .sudoMode }
  | .sudoMode, .setDenied => some { c with state := .denied }
  | .sudoMode, .disconnect => some { c with state := .disconnecting }
  | .sudoMode, .sudoLeave => some { c with state := .active }
  | .disconnecting, _ => some c
  | _, _ => none

/-- What `m_clients.event` with `CSE_SetDenied` makes of a client. -/
def deny (c : RemoteClient) : RemoteClient := (c.notifyEvent .setDenied).getD c

end RemoteClient

end Freeminer.Login
