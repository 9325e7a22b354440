import Freeminer.Login.Sound

/-! The login over any run: who gets past it, who changes a password, which handlers run, and that a
denied client stays so; and the one packet that writes over a password. -/

namespace Freeminer.Login

open Network

variable {cfg : ServerConfig} {ans : Answers} {auth : Accounts} {c : RemoteClient}
  {pkt : NetworkPacket} {handler : Handler} {others : Bool} {s : Server} {name : ByteString}

/-! ### Denied clients -/

theorem deny_denied (hs : c.state = .denied) : c.deny = c := by
  unfold RemoteClient.deny RemoteClient.notifyEvent
  rw [hs]
  rfl

theorem handleCommand_denied (hs : c.state = .denied) :
    (handleCommand cfg ans others auth c pkt handler).client = c := by
  have hlt : c.state < .created := by
    rw [hs]
    decide
  cases handler with
  | init =>
    rw [handleCommand, handleCommandInit, if_pos hlt]
  | initFm =>
    rw [handleCommand, if_pos hlt]
  | init2 =>
    rw [handleCommand, handleCommandInit2, if_pos (by rw [hs]; decide)]
  | clientReady =>
    rw [handleCommand, handleCommandClientReady, if_pos hlt]
  | firstSrp =>
    rw [handleCommand, handleCommandFirstSrp]
    cases readFields [.string, .string, .field .u8] pkt with
    | error _ => rfl
    | ok r =>
      dsimp only
      rw [if_neg (by rw [hs]; decide), if_pos (by rw [hs]; decide)]
  | srpBytesA =>
    rw [handleCommand, handleCommandSrpBytesA, if_pos (by rw [hs]; decide)]
  | srpBytesM =>
    rw [handleCommand, handleCommandSrpBytesM, if_pos (by rw [hs]; decide)]
  | drawcontrol => rfl
  | gotBlocks => rfl
  | requestMedia => rfl
  | null => rfl
  | game => rfl

theorem caught_denied {r : Handled} (hs : r.client.state = .denied) : r.caught = r.client := by
  unfold Handled.caught
  split
  · exact deny_denied hs
  · rfl

/-! ### Stored passwords -/

def Changes (auth auth' : Accounts) (name : ByteString) : Prop :=
  (auth name).isSome = true ∧ auth' name ≠ auth name

def Accepted (cfg : ServerConfig) (c : RemoteClient) (pkt : NetworkPacket) : Prop :=
  (c.state = .helloSent ∨ c.state = .active) ∧
    (c.chosenMech = AUTH_MECHANISM_SRP ∨ c.chosenMech = AUTH_MECHANISM_LEGACY_PASSWORD) ∧
    ∃ vs rest a, readFields [.string] pkt = .ok (vs, rest) ∧ c.authData = some a ∧
      (textAt vs 0).length = sessionKeyLength ∧ cfg.srpVerifies a (textAt vs 0) = true

/-- The proof makes an account that is there by now, with another password. -/
def Overwrites (cfg : ServerConfig) (auth : Accounts) (c : RemoteClient) (pkt : NetworkPacket) : Prop :=
  Accepted cfg c pkt ∧ c.createPlayerOnAuthSuccess = true ∧ cfg.createAuthOverwrites = true ∧
    (auth c.name).isSome = true ∧ auth c.name ≠ some c.encPwd

theorem not_changes_self : ¬Changes auth auth name := fun h => h.2 rfl

theorem sendHello_auth (auth : Accounts) (c : RemoteClient) (mechs : ℕ) :
    (sendHello auth c mechs).auth = auth :=
  event_auth auth _ _

theorem composeAuthMethods_auth : (composeAuthMethods cfg ans auth c).auth = auth := by
  unfold composeAuthMethods
  dsimp only
  cases auth (cName c.name) with
  | some encpwd =>
    dsimp only
    cases passwordKind encpwd with
    | srp => exact sendHello_auth auth _ _
    | legacy => exact sendHello_auth auth _ _
    | unknownMechcode => rfl
    | invalidBase64 => rfl
  | none =>
    dsimp only
    split_ifs
    · exact sendHello_auth auth _ _
    · exact sendHello_auth auth _ _

theorem checkInit_auth (vs : List Value) : (checkInit cfg ans others auth c vs).auth = auth := by
  unfold checkInit
  dsimp only
  split_ifs
  · rfl
  · rfl
  · rfl
  · rfl
  · exact composeAuthMethods_auth

theorem handleCommandInit_auth : (handleCommandInit cfg ans others auth c pkt).auth = auth := by
  unfold handleCommandInit
  split_ifs
  · rfl
  · rfl
  · rfl
  · rfl
  · cases readFields [.field .u8, .field .u16, .field .u16, .field .u16, .string] pkt with
    | error _ => rfl
    | ok r => exact checkInit_auth r.1

theorem handleCommandInit2_auth : (handleCommandInit2 auth c pkt).auth = auth := by
  unfold handleCommandInit2
  by_cases hs : c.state ≠ .awaitingInit2
  · rw [if_pos hs]
  rw [if_neg hs]
  dsimp only
  cases (event auth c .gotInit2).thrown with
  | some e => rfl
  | none =>
    dsimp only
    by_cases hsize : 0 < pkt.datasize
    · rw [if_pos hsize]
      cases readFields [.string] pkt with
      | error e => rfl
      | ok r => exact event_auth auth _ _
    · rw [if_neg hsize]
      exact event_auth auth _ _

theorem handleCommandClientReady_auth : (handleCommandClientReady ans auth c pkt).auth = auth := by
  unfold handleCommandClientReady
  by_cases hlt : c.state < .created
  · rw [if_pos hlt]
  rw [if_neg hlt]
  cases readFields [.field .u8, .field .u8, .field .u8, .field .u8, .string] pkt with
  | error _ => rfl
  | ok _ =>
    dsimp only
    split_ifs
    · rfl
    · rfl
    · exact event_auth auth _ _

theorem startSrp_auth {wantSudo : Bool} {a : SRPVerifier} :
    (startSrp cfg auth c a wantSudo).auth = auth := by
  unfold startSrp
  dsimp only
  split_ifs <;> rfl

theorem handleCommandSrpBytesA_auth : (handleCommandSrpBytesA cfg ans auth c pkt).auth = auth := by
  unfold handleCommandSrpBytesA
  dsimp only
  by_cases hs : ¬(c.state = .helloSent ∨ c.state = .active)
  · rw [if_pos hs]
  rw [if_neg hs]
  by_cases hmech : c.chosenMech ≠ AUTH_MECHANISM_NONE
  · rw [if_pos hmech]
    split_ifs <;> rfl
  rw [if_neg hmech]
  cases readFields [.string, .field .u8] pkt with
  | error _ => rfl
  | ok r =>
    dsimp only
    generalize (if natAt r.1 1 = 0 then AUTH_MECHANISM_LEGACY_PASSWORD else AUTH_MECHANISM_SRP) = chosen
    by_cases hallowed : c.isMechAllowed chosen = false
    · rw [if_pos hallowed]
      split_ifs <;> rfl
    rw [if_neg hallowed]
    cases verifierAndSalt cfg ans c (natAt r.1 1) with
    | none => rfl
    | some vs => exact startSrp_auth

/-- A new account, or what is written over one. -/
theorem createAuth_ok {auth' : Accounts} {p : ByteString}
    (h : createAuth cfg auth name p = .ok auth') :
    auth' = Function.update auth name (some p) ∧
      ((auth name).isSome = true → cfg.createAuthOverwrites = true) := by
  unfold createAuth at h
  split_ifs at h with hthrown
  obtain rfl := Except.ok.inj h
  refine ⟨rfl, fun hsome => ?_⟩
  rw [hsome, Bool.true_and] at hthrown
  simpa using hthrown

theorem name_eq_of_changes {p : Option ByteString} {name' : ByteString}
    (h : Changes auth (Function.update auth name' p) name) : name = name' := by
  by_contra hne
  exact h.2 (Function.update_of_ne hne _ _)

/-- Only the password of a client in sudo mode is written over. -/
theorem handleCommandFirstSrp_changes
    (h : Changes auth (handleCommandFirstSrp cfg ans auth c pkt).auth name) :
    c.state = .sudoMode ∧ name = c.name := by
  unfold handleCommandFirstSrp at h
  cases hread : readFields [.string, .string, .field .u8] pkt with
  | error _ =>
    rw [hread] at h
    exact absurd h not_changes_self
  | ok r =>
    rw [hread] at h
    dsimp only at h
    by_cases hs : c.state = .helloSent
    · rw [if_pos hs] at h
      split_ifs at h with _ _ hsome
      · exact absurd h not_changes_self
      · exact absurd h not_changes_self
      · exact absurd h not_changes_self
      · cases hcreate : createAuth cfg auth c.name
            (cfg.base64.encodeSrpVerifier (textAt r.1 1) (textAt r.1 0)) with
        | error _ =>
          rw [hcreate] at h
          exact absurd h not_changes_self
        | ok auth' =>
          rw [hcreate] at h
          dsimp only at h
          rw [acceptAuth_auth, (createAuth_ok hcreate).1] at h
          have hname := name_eq_of_changes h
          rw [hname] at h
          exact absurd h.1 hsome
    · rw [if_neg hs] at h
      by_cases hlt : c.state < .sudoMode
      · rw [if_pos hlt] at h
        exact absurd h not_changes_self
      rw [if_neg hlt] at h
      have hsudo : c.state = .sudoMode := by
        cases hstate : c.state <;> rw [hstate] at hlt <;>
          first | rfl | exact absurd (by decide) hlt
      cases hthrown : (event auth c .sudoLeave).thrown with
      | some _ =>
        rw [hthrown] at h
        exact absurd h not_changes_self
      | none =>
        rw [hthrown] at h
        dsimp only at h
        split_ifs at h
        · rw [event_auth] at h
          exact absurd h not_changes_self
        · exact ⟨hsudo, name_eq_of_changes h⟩
        · rw [event_auth] at h
          exact absurd h not_changes_self

theorem changes_authSucceeded {wantSudo : Bool} :
    Changes auth (authSucceeded cfg auth c wantSudo).auth name ↔
      name = c.name ∧ c.createPlayerOnAuthSuccess = true ∧ cfg.createAuthOverwrites = true ∧
        (auth c.name).isSome = true ∧ auth c.name ≠ some c.encPwd := by
  unfold authSucceeded
  by_cases hcreate : c.createPlayerOnAuthSuccess = true
  swap
  · rw [if_neg hcreate, acceptAuth_auth]
    exact iff_of_false not_changes_self fun h => hcreate h.2.1
  rw [if_pos hcreate]
  cases hauth : createAuth cfg auth c.name c.encPwd with
  | error _ =>
    refine iff_of_false not_changes_self fun h => ?_
    rw [createAuth, h.2.2.1, Bool.not_true, Bool.and_false] at hauth
    cases hauth
  | ok auth' =>
    obtain ⟨rfl, hover⟩ := createAuth_ok hauth
    dsimp only
    rw [if_neg (by simp), acceptAuth_auth]
    constructor
    · intro h
      obtain rfl := name_eq_of_changes h
      refine ⟨rfl, hcreate, hover h.1, h.1, fun heq => h.2 ?_⟩
      rw [Function.update_self, heq]
    · intro h
      obtain ⟨rfl, -, -, hsome, hne⟩ := h
      refine ⟨hsome, fun heq => hne ?_⟩
      rw [← heq, Function.update_self]

theorem handleCommandSrpBytesM_changes (hsp : cfg.isSingleplayer = false) :
    Changes auth (handleCommandSrpBytesM cfg auth c pkt).auth name ↔
      name = c.name ∧ Overwrites cfg auth c pkt := by
  have hnot : ¬Accepted cfg c pkt → ¬(name = c.name ∧ Overwrites cfg auth c pkt) :=
    fun h hand => h hand.2.1
  unfold handleCommandSrpBytesM
  dsimp only
  by_cases hs : c.state = .helloSent ∨ c.state = .active
  swap
  · rw [if_pos hs]
    exact iff_of_false not_changes_self (hnot fun h => hs h.1)
  rw [if_neg (not_not_intro hs)]
  by_cases hmech : c.chosenMech ≠ AUTH_MECHANISM_SRP ∧ c.chosenMech ≠ AUTH_MECHANISM_LEGACY_PASSWORD
  · rw [if_pos hmech]
    have hrefused := hnot fun h => h.2.1.elim hmech.1 hmech.2
    split_ifs
    · exact iff_of_false not_changes_self hrefused
    · exact iff_of_false not_changes_self hrefused
  rw [if_neg hmech]
  have hmech' : c.chosenMech = AUTH_MECHANISM_SRP ∨ c.chosenMech = AUTH_MECHANISM_LEGACY_PASSWORD := by
    tauto
  cases hread : readFields [.string] pkt with
  | error _ =>
    refine iff_of_false not_changes_self (hnot fun h => ?_)
    obtain ⟨-, -, vs, rest, a, hok, -⟩ := h
    rw [hread] at hok
    cases hok
  | ok r =>
    obtain ⟨vs, rest⟩ := r
    dsimp only
    cases hauth : c.authData with
    | none =>
      refine iff_of_false not_changes_self (hnot fun h => ?_)
      obtain ⟨-, -, _, _, a, -, ha, -⟩ := h
      rw [hauth] at ha
      cases ha
    | some a =>
      dsimp only
      have haccepted : Accepted cfg c pkt ↔
          (textAt vs 0).length = sessionKeyLength ∧ cfg.srpVerifies a (textAt vs 0) = true := by
        constructor
        · rintro ⟨-, -, vs', rest', a', hok, ha, hlength, hverifies⟩
          rw [hread] at hok
          obtain ⟨rfl, rfl⟩ := Prod.mk.inj (Except.ok.inj hok)
          obtain rfl := Option.some.inj (hauth.symm.trans ha)
          exact ⟨hlength, hverifies⟩
        · intro h
          exact ⟨hs, hmech', vs, rest, a, hread, hauth, h.1, h.2⟩
      by_cases hlength : sessionKeyLength ≠ (textAt vs 0).length
      · rw [if_pos hlength]
        exact iff_of_false not_changes_self (hnot fun h => hlength (haccepted.mp h).1.symm)
      rw [if_neg hlength]
      by_cases hverifies : cfg.srpVerifies a (textAt vs 0) = true
      · rw [if_pos hverifies, changes_authSucceeded]
        unfold Overwrites
        rw [haccepted]
        have hlength' : (textAt vs 0).length = sessionKeyLength := (not_not.mp hlength).symm
        simp only [hlength', hverifies, and_self, true_and]
      · rw [if_neg hverifies, hsp, if_neg (by simp)]
        have hrefused := hnot fun h => hverifies (haccepted.mp h).2
        split_ifs
        · exact iff_of_false not_changes_self hrefused
        · exact iff_of_false not_changes_self hrefused

/-! ### Runs -/

/-- A client in sudo mode, after a proof of the password of this name, sets another. -/
structure SetsPassword (cfg : ServerConfig) (s : Server) (peer : ℕ) (pkt : NetworkPacket)
    (name : ByteString) : Prop where
  command : pkt.command.toNat = 0x50
  client : ∃ c, s.clients.lookup peer = some c ∧ c.state = .sudoMode ∧ c.name = name ∧
    Proved cfg c true

structure Secure (cfg : ServerConfig) (s : Server) (e : ServerEvent) : Prop where
  /-- A client that is past the login has logged in. -/
  authenticated : ∀ peer c, (s.step cfg e).clients.lookup peer = some c →
    .awaitingInit2 ≤ c.state → Authenticated cfg c
  /-- A packet changes a stored password only in sudo mode. -/
  passwords : ∀ peer pkt ans name, e = .packet peer pkt ans →
    Changes s.auth (s.step cfg e).auth name → SetsPassword cfg s peer pkt name
  /-- The handlers of the game run for clients that are in it. -/
  inGame : ∀ peer pkt ans handler, e = .packet peer pkt ans →
    s.processData peer pkt.command.toNat = .run handler →
    (toServerCommandTable pkt.command.toNat).1 = .inGame →
    ∃ c, s.clients.lookup peer = some c ∧ (c.state = .active ∨ c.state = .sudoMode)
  /-- A denied client stays denied until its peer is deleted. -/
  denied : ∀ peer c, s.clients.lookup peer = some c → c.state = .denied →
    (∃ c', (s.step cfg e).clients.lookup peer = some c' ∧ c'.state = .denied) ∨
      e = .deletingPeer peer

def OverwritesAt (cfg : ServerConfig) (s : Server) (e : ServerEvent) : Prop :=
  ∃ peer pkt ans c, e = .packet peer pkt ans ∧ pkt.command.toNat = 0x52 ∧
    s.clients.lookup peer = some c ∧ Overwrites cfg s.auth c pkt

def AllSound (cfg : ServerConfig) (s : Server) : Prop :=
  ∀ peer c, s.clients.lookup peer = some c → Sound cfg c

theorem AllSound.insert (h : AllSound cfg s) {peer : ℕ} (hc : Sound cfg c) (auth : Accounts) :
    AllSound cfg { s with clients := s.clients.insert peer c, auth := auth } := by
  intro q d hd
  dsimp only at hd
  by_cases hq : q = peer
  · subst hq
    rw [Finmap.lookup_insert, Option.some.injEq] at hd
    exact hd ▸ hc
  · rw [Finmap.lookup_insert_of_ne _ hq] at hd
    exact h q d hd

theorem run_eq {peer command : ℕ} (h : s.processData peer command = .run handler) :
    handler = (toServerCommandTable command).2 := by
  unfold Server.processData at h
  split_ifs at h
  · exact (Dispatch.run.inj h).symm
  · cases hc : s.getClientNoEx peer .initDone with
    | none =>
      rw [hc] at h
      cases h
    | some c =>
      rw [hc] at h
      dsimp only at h
      unfold RemoteClient.processConnected at h
      split_ifs at h
      · exact (Dispatch.run.inj h).symm
      · exact (Dispatch.run.inj h).symm

/-- A packet changes nothing, or it is handled. -/
theorem receive_cases (cfg : ServerConfig) (s : Server) (peer : ℕ) (pkt : NetworkPacket)
    (ans : Answers) : s.receive cfg peer pkt ans = s ∨
      ∃ handler c others, s.processData peer pkt.command.toNat = .run handler ∧
        s.clients.lookup peer = some c ∧
        s.receive cfg peer pkt ans =
          { s with
            clients :=
              s.clients.insert peer (handleCommand cfg ans others s.auth c pkt handler).caught
            auth := (handleCommand cfg ans others s.auth c pkt handler).auth } := by
  unfold Server.receive
  cases hd : s.processData peer pkt.command.toNat with
  | ignored => exact .inl rfl
  | thrown e => exact .inl rfl
  | run handler =>
    cases hc : s.clients.lookup peer with
    | none => exact .inl rfl
    | some c => exact .inr ⟨handler, c, _, rfl, rfl, rfl⟩

theorem AllSound.step (hsp : cfg.isSingleplayer = false) (h : AllSound cfg s) (e : ServerEvent) :
    AllSound cfg (s.step cfg e) := by
  cases e with
  | peerAdded peer =>
    unfold Server.step
    dsimp only
    split_ifs
    · exact h
    · exact h.insert (Sound.new rfl ⟨rfl, rfl, rfl⟩) s.auth
  | deletingPeer peer =>
    intro q d hd
    unfold Server.step at hd
    dsimp only at hd
    by_cases hq : q = peer
    · rw [hq, Finmap.lookup_erase] at hd
      cases hd
    · rw [Finmap.lookup_erase_ne hq] at hd
      exact h q d hd
  | packet peer pkt ans =>
    rw [Server.step]
    rcases receive_cases cfg s peer pkt ans with heq | ⟨handler, c, others, -, hc, heq⟩
    · rw [heq]
      exact h
    · rw [heq]
      exact h.insert (handleCommand_sound hsp (h peer c hc)).caught _
  | denyAccess peer =>
    unfold Server.step
    dsimp only
    cases hc : s.clients.lookup peer with
    | none => exact h
    | some c => exact h.insert (h peer c hc).deny s.auth
  | script name password => exact h
  | overload n => exact h

theorem AllSound.run (hsp : cfg.isSingleplayer = false) (h : AllSound cfg s)
    (events : List ServerEvent) : AllSound cfg (s.run cfg events) := by
  unfold Server.run
  induction events generalizing s with
  | nil => exact h
  | cons e events ih => exact ih (h.step hsp e)

theorem game_of_run {peer command : ℕ} (h : s.processData peer command = .run handler)
    (hgame : (toServerCommandTable command).1 = .inGame) :
    ∃ c, s.clients.lookup peer = some c ∧ (c.state = .active ∨ c.state = .sudoMode) := by
  unfold Server.processData at h
  rw [hgame, if_neg (show ToServerConnectionState.inGame ≠ .notConnected by decide)] at h
  split_ifs at h
  cases hc : s.getClientNoEx peer .initDone with
  | none =>
    rw [hc] at h
    cases h
  | some c =>
    rw [hc] at h
    dsimp only at h
    unfold RemoteClient.processConnected at h
    rw [hgame, if_neg (show ToServerConnectionState.inGame ≠ .startup by decide)] at h
    split_ifs at h with _ hlt
    refine ⟨c, (Option.filter_eq_some_iff.mp hc).1, ?_⟩
    cases hstate : c.state <;> rw [hstate] at hlt <;>
      first | exact .inl rfl | exact .inr rfl | exact absurd (by decide) hlt

theorem denied_step {peer : ℕ} (hc : s.clients.lookup peer = some c) (hs : c.state = .denied)
    (e : ServerEvent) :
    (∃ c', (s.step cfg e).clients.lookup peer = some c' ∧ c'.state = .denied) ∨
      e = .deletingPeer peer := by
  cases e with
  | peerAdded q =>
    left
    unfold Server.step
    dsimp only
    split_ifs with hq
    · exact ⟨c, hc, hs⟩
    · have hne : peer ≠ q := by
        intro heq
        rw [← heq, hc] at hq
        exact hq rfl
      exact ⟨c, (Finmap.lookup_insert_of_ne _ hne).trans hc, hs⟩
  | deletingPeer q =>
    by_cases hq : q = peer
    · exact .inr (by rw [hq])
    · exact .inl ⟨c, (Finmap.lookup_erase_ne (Ne.symm hq)).trans hc, hs⟩
  | packet q pkt ans =>
    left
    rw [Server.step]
    rcases receive_cases cfg s q pkt ans with heq | ⟨handler, d, others, -, hd, heq⟩
    · rw [heq]
      exact ⟨c, hc, hs⟩
    · rw [heq]
      by_cases hq : peer = q
      · subst hq
        obtain rfl := Option.some.inj (hc.symm.trans hd)
        have hclient : (handleCommand cfg ans others s.auth c pkt handler).client = c :=
          handleCommand_denied hs
        refine ⟨_, Finmap.lookup_insert _, ?_⟩
        rw [caught_denied (by rw [hclient, hs]), hclient, hs]
      · exact ⟨c, (Finmap.lookup_insert_of_ne _ hq).trans hc, hs⟩
  | denyAccess q =>
    left
    unfold Server.step
    dsimp only
    cases hd : s.clients.lookup q with
    | none => exact ⟨c, hc, hs⟩
    | some d =>
      by_cases hq : peer = q
      · subst hq
        obtain rfl := Option.some.inj (hc.symm.trans hd)
        refine ⟨_, Finmap.lookup_insert _, ?_⟩
        rw [deny_denied hs, hs]
      · exact ⟨c, (Finmap.lookup_insert_of_ne _ hq).trans hc, hs⟩
  | script name password => exact .inl ⟨c, hc, hs⟩
  | overload n => exact .inl ⟨c, hc, hs⟩

theorem command_of_handler {command : ℕ} :
    ((toServerCommandTable command).2 = .firstSrp → command = 0x50) ∧
      ((toServerCommandTable command).2 = .srpBytesM → command = 0x52) := by
  unfold toServerCommandTable
  split
  case h_11 =>
    split_ifs
    · simp
    · simp
  all_goals simp

/-- Which packets write over a stored password. -/
theorem changes_handleCommand (hsp : cfg.isSingleplayer = false)
    (h : Changes auth (handleCommand cfg ans others auth c pkt handler).auth name) :
    (handler = .firstSrp ∧ c.state = .sudoMode ∧ name = c.name) ∨
      (handler = .srpBytesM ∧ name = c.name ∧ Overwrites cfg auth c pkt) := by
  cases handler with
  | init =>
    rw [handleCommand, handleCommandInit_auth] at h
    exact absurd h not_changes_self
  | initFm =>
    unfold handleCommand at h
    split_ifs at h
    · exact absurd h not_changes_self
    · exact absurd h not_changes_self
  | init2 =>
    rw [handleCommand, handleCommandInit2_auth] at h
    exact absurd h not_changes_self
  | clientReady =>
    rw [handleCommand, handleCommandClientReady_auth] at h
    exact absurd h not_changes_self
  | firstSrp => exact .inl ⟨rfl, handleCommandFirstSrp_changes h⟩
  | srpBytesA =>
    rw [handleCommand, handleCommandSrpBytesA_auth] at h
    exact absurd h not_changes_self
  | srpBytesM => exact .inr ⟨rfl, (handleCommandSrpBytesM_changes hsp).mp h⟩
  | drawcontrol => exact absurd h not_changes_self
  | gotBlocks => exact absurd h not_changes_self
  | requestMedia => exact absurd h not_changes_self
  | null => exact absurd h not_changes_self
  | game => exact absurd h not_changes_self

theorem processData_srpBytesM (s : Server) (peer : ℕ) :
    s.processData peer 0x52 = .run .srpBytesM := by
  unfold Server.processData
  rw [if_neg (by decide), if_neg (by rintro ⟨-, h | h⟩ <;> cases h), if_neg (by rintro ⟨-, h⟩; cases h)]
  rfl

/-- An event is as secure as it is not a proof that writes over an account. -/
theorem secure_iff (hsp : cfg.isSingleplayer = false) (hs : AllSound cfg s) (e : ServerEvent) :
    Secure cfg s e ↔ ¬OverwritesAt cfg s e := by
  constructor
  · rintro h ⟨peer, pkt, ans, c, rfl, hcommand, hc, hover⟩
    have hchanges : Changes s.auth (s.step cfg (.packet peer pkt ans)).auth c.name := by
      rw [Server.step, Server.receive, hcommand, processData_srpBytesM]
      dsimp only
      rw [hc]
      exact (handleCommandSrpBytesM_changes hsp).mpr ⟨rfl, hover⟩
    have hset := (h.passwords peer pkt ans c.name rfl hchanges).command
    rw [hcommand] at hset
    exact absurd hset (by decide)
  · intro hnot
    refine ⟨fun peer c hc hle => ((hs.step hsp e) peer c hc).authenticated hle, ?_, ?_,
      fun peer c hc hdenied => denied_step hc hdenied e⟩
    · rintro peer pkt ans name rfl hchanges
      rw [Server.step] at hchanges
      rcases receive_cases cfg s peer pkt ans with heq | ⟨handler, c, others, hrun, hc, heq⟩
      · rw [heq] at hchanges
        exact absurd hchanges not_changes_self
      · rw [heq] at hchanges
        have hhandler := run_eq hrun
        rcases changes_handleCommand hsp hchanges with ⟨rfl, hsudo, rfl⟩ | ⟨rfl, rfl, hover⟩
        · exact ⟨command_of_handler.1 hhandler.symm, c, hc, hsudo, rfl,
            (hs peer c hc).provedAgain hsudo⟩
        · exact absurd ⟨peer, pkt, ans, c, rfl, command_of_handler.2 hhandler.symm, hc, hover⟩ hnot
    · rintro peer pkt ans handler rfl hrun hgame
      exact game_of_run hrun hgame

def started (auth : Accounts) : Server where
  auth := auth

/-- A server with a default password. Its salts and verifiers here are 0 and 1, in three bytes, and
the proof of the verifier 0 is thirty-two sevens. -/
def exampleConfig (createAuthOverwrites : Bool) : ServerConfig where
  defaultPassword := bytes "secret"
  createAuthOverwrites := createAuthOverwrites
  base64 :=
    { encode := fun b => if b = [0, 0, 0] then bytes "AAAA" else bytes "AAAB"
      decode := fun s => if s = bytes "AAAA" then [0, 0, 0] else [0, 0, 1] }
  srpSafe _ := true
  srpVerifies a m := decide (a.verifier = [0, 0, 0] ∧ m = List.replicate 32 7)

def loginPacket (command : UInt16) (data : ByteString) (h : data.length < 100) : NetworkPacket where
  command := command
  data := data
  length_lt := h.trans (by norm_num)

def initPacket : NetworkPacket :=
  loginPacket 0x02 ([29, 0, 0, 0, 37, 0, 52, 0, 3] ++ bytes "ann") (by decide)

def srpBytesAPacket : NetworkPacket := loginPacket 0x51 [0, 1, 9, 1] (by decide)

def srpBytesMPacket : NetworkPacket :=
  loginPacket 0x52 ([0, 32] ++ List.replicate 32 7) (by decide)

def answers : Answers where
  generated := ([0, 0, 0], [0, 0, 0])

def loginOf (peer : ℕ) : List ServerEvent :=
  [.packet peer srpBytesAPacket answers, .packet peer srpBytesMPacket answers]

/-- Two clients begin to log in under one new name; the first gets in, and sets a password of its
own in sudo mode. -/
def twoOfOneName : List ServerEvent :=
  [.peerAdded 2, .peerAdded 3, .packet 2 initPacket answers, .packet 3 initPacket answers] ++
    loginOf 3 ++
    [.packet 3 (loginPacket 0x11 [] (by decide)) answers,
      .packet 3 (loginPacket 0x43 [5, 4, 3, 0, 0, 0] (by decide)) answers] ++
    loginOf 3 ++
    [.packet 3 (loginPacket 0x50 [0, 3, 0, 0, 1, 0, 3, 0, 0, 1, 0] (by decide)) answers,
      .packet 2 srpBytesAPacket answers]

end Freeminer.Login
