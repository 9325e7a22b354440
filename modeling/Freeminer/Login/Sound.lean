import Freeminer.Login.Handlers

/-! What holds of every client, whatever packets it sends: one that is past the login has logged in,
one in sudo mode has shown its password again, and one that is denied stays so. -/

namespace Freeminer.Login

open Network

variable {cfg : ServerConfig} {ans : Answers} {auth : Accounts} {c c' : RemoteClient}
  {pkt : NetworkPacket} {e : ClientStateEvent} {handler : Handler} {others : Bool}

def Proved (cfg : ServerConfig) (c : RemoteClient) (wantSudo : Bool) : Prop :=
  ∃ a m, Shown.proof a m wantSudo ∈ c.shown ∧ a.username = cName c.name ∧ cfg.srpVerifies a m = true

/-- The client has proved a password for its name, or its account was made for it. -/
def Authenticated (cfg : ServerConfig) (c : RemoteClient) : Prop :=
  Proved cfg c false ∨ Shown.created c.name ∈ c.shown

structure Sound (cfg : ServerConfig) (c : RemoteClient) : Prop where
  authenticated : .awaitingInit2 ≤ c.state → Authenticated cfg c
  provedAgain : c.state = .sudoMode → Proved cfg c true
  session : ∀ a, c.authData = some a → a.username = cName c.name
  fresh : c.state = .created →
    c.shown = [] ∧ c.authData = none ∧ c.chosenMech = AUTH_MECHANISM_NONE
  /-- There is a verifier while a login is going on. -/
  verifier : c.state = .helloSent ∨ c.state = .active → c.chosenMech ≠ AUTH_MECHANISM_NONE →
    c.authData.isSome = true
  idle : .awaitingInit2 ≤ c.state → c.state ≠ .active → c.chosenMech = AUTH_MECHANISM_NONE

/-! ### Events -/

/-- What an event does to a client: it does nothing, it ends the session, or it moves the state along
its arrow. -/
inductive Moves : RemoteClient → ClientStateEvent → RemoteClient → Prop where
  | stays {c : RemoteClient} {e : ClientStateEvent}
      (h : c.state = .invalid ∨ c.state = .denied ∨ c.state = .disconnecting) : Moves c e c
  | ends {c : RemoteClient} {e : ClientStateEvent} (state : ClientState)
      (hstate : state = .denied ∨ state = .disconnecting) :
      Moves c e { c with state := state }
  | resets {c : RemoteClient} {e : ClientStateEvent} : Moves c e { c.resetChosenMech with state := .denied }
  | hello {c : RemoteClient} (h : c.state = .created) : Moves c .hello { c with state := .helloSent }
  | authAccept {c : RemoteClient} (h : c.state = .helloSent) :
      Moves c .authAccept { c.resetChosenMech with state := .awaitingInit2 }
  | goes {c : RemoteClient} {e : ClientStateEvent} (state : ClientState) (serializationVersion : UInt8)
      (h : .awaitingInit2 ≤ c.state)
      (hne : c.state ≠ .active)
      (hstate : state = .initDone ∨ state = .definitionsSent ∨ state = .active) :
      Moves c e { c with state := state, serializationVersion := serializationVersion }
  | sudoSuccess {c : RemoteClient} (h : c.state = .active) :
      Moves c .sudoSuccess { c.resetChosenMech with state := .sudoMode }

theorem moves_of_notifyEvent (h : c.notifyEvent e = some c') : Moves c e c' := by
  unfold RemoteClient.notifyEvent at h
  split at h <;> try cases h
  case h_1 hs => exact .stays (.inl hs)
  case h_2 hs => exact .hello hs
  case h_3 => exact .ends _ (.inr rfl)
  case h_4 => exact .ends _ (.inl rfl)
  case h_5 hs => exact .stays (.inr (.inl hs))
  case h_6 hs => exact .authAccept hs
  case h_7 => exact .ends _ (.inr rfl)
  case h_8 => exact .resets
  case h_9 hs => exact .goes _ _ (by rw [hs]; decide) (by rw [hs]; decide) (.inl rfl)
  case h_10 => exact .ends _ (.inr rfl)
  case h_11 => exact .ends _ (.inl rfl)
  case h_12 hs => exact .goes _ _ (by rw [hs]; decide) (by rw [hs]; decide) (.inr (.inl rfl))
  case h_13 => exact .ends _ (.inr rfl)
  case h_14 => exact .ends _ (.inl rfl)
  case h_15 hs => exact .goes _ _ (by rw [hs]; decide) (by rw [hs]; decide) (.inr (.inr rfl))
  case h_16 => exact .ends _ (.inr rfl)
  case h_17 => exact .ends _ (.inl rfl)
  case h_18 => exact .ends _ (.inl rfl)
  case h_19 => exact .ends _ (.inr rfl)
  case h_20 hs => exact .sudoSuccess hs
  case h_21 => exact .ends _ (.inl rfl)
  case h_22 => exact .ends _ (.inr rfl)
  case h_23 hs => exact .goes _ _ (by rw [hs]; decide) (by rw [hs]; decide) (.inr (.inr rfl))
  case h_24 hs => exact .stays (.inr (.inr hs))

/-- A client that is not past the login, nor new. -/
theorem Sound.early (hlt : c.state < .awaitingInit2) (hne : c.state ≠ .created)
    (hsession : ∀ a, c.authData = some a → a.username = cName c.name)
    (hverifier : c.state = .helloSent → c.chosenMech ≠ AUTH_MECHANISM_NONE →
      c.authData.isSome = true) : Sound cfg c where
  authenticated hle := absurd hle (Nat.not_le_of_lt hlt)
  provedAgain hs := by
    rw [hs] at hlt
    exact absurd hlt (by decide)
  session := hsession
  fresh hs := absurd hs hne
  verifier hs := by
    rcases hs with hs | hs
    · exact hverifier hs
    · rw [hs] at hlt
      exact absurd hlt (by decide)
  idle hle := absurd hle (Nat.not_le_of_lt hlt)

/-- A client past the login, with none going on. -/
theorem Sound.idleAt (hauth : Authenticated cfg c) (hmech : c.chosenMech = AUTH_MECHANISM_NONE)
    (hsession : ∀ a, c.authData = some a → a.username = cName c.name)
    (hagain : c.state = .sudoMode → Proved cfg c true) (hle : .awaitingInit2 ≤ c.state) :
    Sound cfg c where
  authenticated _ := hauth
  provedAgain := hagain
  session := hsession
  fresh hs := by
    rw [hs] at hle
    exact absurd hle (by decide)
  verifier _ hne := absurd hmech hne
  idle _ _ := hmech

theorem Sound.moves (h : Sound cfg c)
    (hlogin : c.state = .helloSent → e = .authAccept → Authenticated cfg c)
    (hagain : e = .sudoSuccess → Proved cfg c true) (hm : Moves c e c') : Sound cfg c' := by
  cases hm with
  | stays _ => exact h
  | ends state hstate =>
    rcases hstate with rfl | rfl
    · exact Sound.early (show ClientState.denied < _ by decide) (fun h => by cases h) h.session
        (fun h => by cases h)
    · exact Sound.early (show ClientState.disconnecting < _ by decide) (fun h => by cases h)
        h.session (fun h => by cases h)
  | resets =>
    exact Sound.early (show ClientState.denied < _ by decide) (fun h => by cases h)
      (fun a ha => by cases ha) (fun h => by cases h)
  | hello hs =>
    obtain ⟨-, -, hmech⟩ := h.fresh hs
    exact Sound.early (show ClientState.helloSent < _ by decide) (fun h => by cases h) h.session
      (fun _ hne => absurd hmech hne)
  | authAccept hs =>
    exact Sound.idleAt (hlogin hs rfl) rfl (fun a ha => by cases ha) (fun h => by cases h)
      (show ClientState.awaitingInit2 ≤ .awaitingInit2 by decide)
  | goes state serializationVersion hle hne hstate =>
    have hmech := h.idle hle hne
    rcases hstate with rfl | rfl | rfl
    · exact Sound.idleAt (h.authenticated hle) hmech h.session (fun h => by cases h)
        (show ClientState.awaitingInit2 ≤ .initDone by decide)
    · exact Sound.idleAt (h.authenticated hle) hmech h.session (fun h => by cases h)
        (show ClientState.awaitingInit2 ≤ .definitionsSent by decide)
    · exact Sound.idleAt (h.authenticated hle) hmech h.session (fun h => by cases h)
        (show ClientState.awaitingInit2 ≤ .active by decide)
  | sudoSuccess hs =>
    exact Sound.idleAt (h.authenticated (by rw [hs]; decide)) rfl (fun a ha => by cases ha)
      (fun _ => hagain rfl) (show ClientState.awaitingInit2 ≤ .sudoMode by decide)

theorem Sound.event (h : Sound cfg c)
    (hlogin : c.state = .helloSent → e = .authAccept → Authenticated cfg c)
    (hagain : e = .sudoSuccess → Proved cfg c true) : Sound cfg (event auth c e).client := by
  unfold Login.event
  cases hev : c.notifyEvent e with
  | none => exact h
  | some c' => exact h.moves hlogin hagain (moves_of_notifyEvent hev)

theorem Sound.deny (h : Sound cfg c) : Sound cfg c.deny := by
  unfold RemoteClient.deny
  cases hev : c.notifyEvent .setDenied with
  | none => exact h
  | some c' =>
    exact h.moves (fun _ he => by cases he) (fun he => by cases he) (moves_of_notifyEvent hev)

@[simp] theorem event_auth (auth : Accounts) (c : RemoteClient) (e : ClientStateEvent) :
    (event auth c e).auth = auth := by
  unfold event
  cases c.notifyEvent e <;> rfl

@[simp] theorem acceptAuth_auth (auth : Accounts) (c : RemoteClient) (sudoMode : Bool) :
    (acceptAuth auth c sudoMode).auth = auth := by
  unfold acceptAuth
  cases sudoMode <;> simp

/-! ### Handlers -/

/-- A client that has said nothing yet, whatever was noted of it. -/
theorem Sound.new (hs : c.state = .created)
    (hf : c.shown = [] ∧ c.authData = none ∧ c.chosenMech = AUTH_MECHANISM_NONE) :
    Sound cfg c where
  authenticated hle := by
    rw [hs] at hle
    exact absurd hle (by decide)
  provedAgain hagain := by
    rw [hs] at hagain
    cases hagain
  session a ha := by
    rw [hf.2.1] at ha
    cases ha
  fresh _ := hf
  verifier _ hne := absurd hf.2.2 hne
  idle _ _ := hf.2.2

theorem Sound.setEncryptedPassword (h : Sound cfg c) (pwd : ByteString) :
    Sound cfg (c.setEncryptedPassword pwd) :=
  ⟨h.authenticated, h.provedAgain, h.session, h.fresh, h.verifier, h.idle⟩

theorem Sound.noCreate (h : Sound cfg c) :
    Sound cfg { c with createPlayerOnAuthSuccess := false } :=
  ⟨h.authenticated, h.provedAgain, h.session, h.fresh, h.verifier, h.idle⟩

theorem Sound.shows (h : Sound cfg c) (hne : c.state ≠ .created) (more : List Shown) :
    Sound cfg { c with shown := c.shown ++ more } where
  authenticated hle := by
    rcases h.authenticated hle with ⟨a, m, hmem, hname, hm⟩ | hmem
    · exact .inl ⟨a, m, List.mem_append_left _ hmem, hname, hm⟩
    · exact .inr (List.mem_append_left _ hmem)
  provedAgain hs := by
    obtain ⟨a, m, hmem, hname, hm⟩ := h.provedAgain hs
    exact ⟨a, m, List.mem_append_left _ hmem, hname, hm⟩
  session := h.session
  fresh hs := absurd hs hne
  verifier := h.verifier
  idle := h.idle

/-- A login, or the way to sudo mode, starts. -/
theorem Sound.starts (h : Sound cfg c) (hs : c.state = .helloSent ∨ c.state = .active) (mech : ℕ)
    {a : SRPVerifier} (ha : a.username = cName c.name) :
    Sound cfg { c with chosenMech := mech, authData := some a } where
  authenticated := h.authenticated
  provedAgain := h.provedAgain
  session b hb := by
    cases hb
    exact ha
  fresh hnew := by
    dsimp only at hnew
    rw [hnew] at hs
    exact absurd hs (by decide)
  verifier _ _ := rfl
  idle hle hne := by
    dsimp only at hle hne
    rcases hs with hs | hs
    · rw [hs] at hle
      exact absurd hle (by decide)
    · exact absurd hs hne

theorem Sound.resetChosenMech (h : Sound cfg c) (hne : c.state ≠ .created) :
    Sound cfg c.resetChosenMech where
  authenticated := h.authenticated
  provedAgain := h.provedAgain
  session a ha := by cases ha
  fresh hs := absurd hs hne
  verifier _ hne := absurd rfl hne
  idle _ _ := rfl

/-- A login that goes wrong before its verifier is there. -/
theorem Sound.deny_starts (h : Sound cfg c) (hs : c.state = .helloSent ∨ c.state = .active)
    (mech : ℕ) : Sound cfg ({ c with chosenMech := mech } : RemoteClient).deny := by
  have hdeny : ({ c with chosenMech := mech } : RemoteClient).deny.state = .denied ∧
      ∀ a, ({ c with chosenMech := mech } : RemoteClient).deny.authData = some a →
        c.authData = some a ∧
          ({ c with chosenMech := mech } : RemoteClient).deny.name = c.name := by
    unfold RemoteClient.deny RemoteClient.notifyEvent
    rcases hs with hs | hs
    · dsimp only
      rw [hs]
      exact ⟨rfl, fun a ha => by cases ha⟩
    · dsimp only
      rw [hs]
      exact ⟨rfl, fun a ha => ⟨ha, rfl⟩⟩
  refine Sound.early (by rw [hdeny.1]; decide) (by rw [hdeny.1]; decide) ?_
    (fun hhello => by rw [hdeny.1] at hhello; cases hhello)
  intro a ha
  obtain ⟨hold, hname⟩ := hdeny.2 a ha
  rw [hname]
  exact h.session a hold

theorem composeAuthMethods_sound (hs : c.state = .created)
    (hf : c.shown = [] ∧ c.authData = none ∧ c.chosenMech = AUTH_MECHANISM_NONE) :
    Sound cfg (composeAuthMethods cfg ans auth c).client := by
  have hello : ∀ (d : RemoteClient) (mechs : ℕ), d.state = .created →
      (d.shown = [] ∧ d.authData = none ∧ d.chosenMech = AUTH_MECHANISM_NONE) →
      Sound cfg (sendHello auth d mechs).client := by
    intro d mechs hd hdf
    have hnew : Sound cfg { d with allowedAuthMechs := mechs } := Sound.new hd hdf
    exact hnew.event (fun _ he => by cases he) (fun he => by cases he)
  have hf' : c.shown = [] ∧ c.authData = none ∧ AUTH_MECHANISM_NONE = AUTH_MECHANISM_NONE :=
    ⟨hf.1, hf.2.1, rfl⟩
  have hnew : Sound cfg { c with chosenMech := AUTH_MECHANISM_NONE } := Sound.new hs hf'
  unfold composeAuthMethods
  dsimp only
  cases auth (cName c.name) with
  | some encpwd =>
    dsimp only
    cases passwordKind encpwd with
    | srp => exact hello _ _ hs hf'
    | legacy => exact hello _ _ hs hf'
    | unknownMechcode => exact hnew.deny
    | invalidBase64 => exact hnew.deny
  | none =>
    dsimp only
    split_ifs
    · exact hello _ _ hs hf'
    · exact hello _ _ hs hf'

theorem eq_created {state : ClientState} (hlt : ¬state < .created) (hgt : ¬.created < state) :
    state = .created := by
  cases state <;> first | rfl | exact absurd (by decide) hlt | exact absurd (by decide) hgt

theorem checkInit_sound (h : Sound cfg c) (hs : c.state = .created) (vs : List Value) :
    Sound cfg (checkInit cfg ans others auth c vs).client := by
  have hf := h.fresh hs
  unfold checkInit
  dsimp only
  split_ifs
  · exact h.deny
  · exact Sound.deny (Sound.new hs hf)
  · exact Sound.deny (Sound.new hs hf)
  · exact Sound.deny (Sound.new hs hf)
  · exact composeAuthMethods_sound hs hf

theorem handleCommandInit_sound (h : Sound cfg c) :
    Sound cfg (handleCommandInit cfg ans others auth c pkt).client := by
  unfold handleCommandInit
  split_ifs with hlt _ hgt _
  · exact h
  · exact h
  · exact h
  · exact h.deny
  · cases readFields [.field .u8, .field .u16, .field .u16, .field .u16, .string] pkt with
    | error _ => exact h
    | ok r => exact checkInit_sound h (eq_created hlt hgt) r.1

theorem handleCommandInit2_sound (h : Sound cfg c) :
    Sound cfg (handleCommandInit2 auth c pkt).client := by
  have hgot : Sound cfg (event auth c .gotInit2).client :=
    h.event (fun _ he => by cases he) (fun he => by cases he)
  have hsent : Sound cfg (event auth (event auth c .gotInit2).client .setDefinitionsSent).client :=
    hgot.event (fun _ he => by cases he) (fun he => by cases he)
  unfold handleCommandInit2
  by_cases hs : c.state ≠ .awaitingInit2
  · rw [if_pos hs]
    exact h
  rw [if_neg hs]
  dsimp only
  cases (event auth c .gotInit2).thrown with
  | some e => exact hgot
  | none =>
    dsimp only
    by_cases hsize : 0 < pkt.datasize
    · rw [if_pos hsize]
      cases readFields [.string] pkt with
      | error e => exact hgot
      | ok r => exact hsent
    · rw [if_neg hsize]
      exact hsent

theorem handleCommandClientReady_sound (h : Sound cfg c) :
    Sound cfg (handleCommandClientReady ans auth c pkt).client := by
  unfold handleCommandClientReady
  by_cases hlt : c.state < .created
  · rw [if_pos hlt]
    exact h
  rw [if_neg hlt]
  cases readFields [.field .u8, .field .u8, .field .u8, .field .u8, .string] pkt with
  | error _ => exact h
  | ok _ =>
    dsimp only
    split_ifs
    · exact h.deny
    · exact h.deny
    · exact h.event (fun _ he => by cases he) (fun he => by cases he)

theorem handleCommandFirstSrp_sound (h : Sound cfg c) :
    Sound cfg (handleCommandFirstSrp cfg ans auth c pkt).client := by
  unfold handleCommandFirstSrp
  cases readFields [.string, .string, .field .u8] pkt with
  | error _ => exact h
  | ok r =>
    dsimp only
    by_cases hs : c.state = .helloSent
    · rw [if_pos hs]
      by_cases hmech : c.isMechAllowed AUTH_MECHANISM_FIRST_SRP = false
      · rw [if_pos hmech]
        exact h.deny
      rw [if_neg hmech]
      split_ifs
      · exact h.deny
      · exact h.deny
      · cases createAuth cfg auth c.name
            (cfg.base64.encodeSrpVerifier (textAt r.1 1) (textAt r.1 0)) with
        | error _ => exact h
        | ok auth' =>
          have hshown := (h.setEncryptedPassword
            (cfg.base64.encodeSrpVerifier (textAt r.1 1) (textAt r.1 0))).shows
              (by rw [show (c.setEncryptedPassword _).state = c.state from rfl, hs]; decide)
              [.created c.name]
          exact hshown.event (fun _ _ => .inr (List.mem_append_right _ (List.mem_singleton_self _)))
            (fun he => by cases he)
    · rw [if_neg hs]
      by_cases hlt : c.state < .sudoMode
      · rw [if_pos hlt]
        exact h
      rw [if_neg hlt]
      have hleave : Sound cfg (event auth c .sudoLeave).client :=
        h.event (fun _ he => by cases he) (fun he => by cases he)
      cases (event auth c .sudoLeave).thrown with
      | some _ => exact hleave
      | none =>
        dsimp only
        split_ifs
        · exact hleave
        · exact hleave.setEncryptedPassword _
        · exact hleave

theorem startSrp_sound {wantSudo : Bool} {a : SRPVerifier}
    (h : Sound cfg { c with authData := some a }) (hne : c.state ≠ .created) :
    Sound cfg (startSrp cfg auth c a wantSudo).client := by
  unfold startSrp
  dsimp only
  split_ifs
  · exact h.resetChosenMech hne
  · exact h.deny
  · exact h

theorem ne_created (hs : c.state = .helloSent ∨ c.state = .active) : c.state ≠ .created := by
  rcases hs with hs | hs
  · rw [hs]
    decide
  · rw [hs]
    decide

theorem handleCommandSrpBytesA_sound (h : Sound cfg c) :
    Sound cfg (handleCommandSrpBytesA cfg ans auth c pkt).client := by
  unfold handleCommandSrpBytesA
  dsimp only
  by_cases hs : c.state = .helloSent ∨ c.state = .active
  swap
  · rw [if_pos hs]
    exact h
  rw [if_neg (not_not_intro hs)]
  by_cases hmech : c.chosenMech ≠ AUTH_MECHANISM_NONE
  · rw [if_pos hmech]
    split_ifs
    · exact h
    · exact h.deny
  rw [if_neg hmech]
  cases readFields [.string, .field .u8] pkt with
  | error _ => exact h
  | ok r =>
    dsimp only
    generalize (if natAt r.1 1 = 0 then AUTH_MECHANISM_LEGACY_PASSWORD else AUTH_MECHANISM_SRP) = chosen
    by_cases hallowed : c.isMechAllowed chosen = false
    · rw [if_pos hallowed]
      split_ifs
      · exact h
      · exact h.deny
    rw [if_neg hallowed]
    cases verifierAndSalt cfg ans c (natAt r.1 1) with
    | none => exact h.deny_starts hs chosen
    | some vs => exact startSrp_sound (h.starts hs chosen rfl) (ne_created hs)

theorem acceptAuth_sound {wantSudo : Bool} (h : Sound cfg c) (hproved : Proved cfg c wantSudo) :
    Sound cfg (acceptAuth auth c wantSudo).client := by
  unfold acceptAuth
  cases wantSudo with
  | true => exact h.event (fun _ he => by cases he) (fun _ => hproved)
  | false => exact h.event (fun _ _ => .inl hproved) (fun he => by cases he)

theorem authSucceeded_sound {wantSudo : Bool} (h : Sound cfg c) (hproved : Proved cfg c wantSudo) :
    Sound cfg (authSucceeded cfg auth c wantSudo).client := by
  unfold authSucceeded
  by_cases hcreate : c.createPlayerOnAuthSuccess = true
  · rw [if_pos hcreate]
    cases createAuth cfg auth c.name c.encPwd with
    | error _ => exact h
    | ok auth' =>
      dsimp only
      split_ifs
      · exact h.deny
      · exact acceptAuth_sound h.noCreate hproved
  · rw [if_neg hcreate]
    exact acceptAuth_sound h hproved

theorem handleCommandSrpBytesM_sound (hsp : cfg.isSingleplayer = false) (h : Sound cfg c) :
    Sound cfg (handleCommandSrpBytesM cfg auth c pkt).client := by
  unfold handleCommandSrpBytesM
  dsimp only
  by_cases hs : c.state = .helloSent ∨ c.state = .active
  swap
  · rw [if_pos hs]
    exact h
  rw [if_neg (not_not_intro hs)]
  have hnew : c.state ≠ .created := ne_created hs
  by_cases hmech : c.chosenMech ≠ AUTH_MECHANISM_SRP ∧ c.chosenMech ≠ AUTH_MECHANISM_LEGACY_PASSWORD
  · rw [if_pos hmech]
    split_ifs
    · exact h
    · exact h.deny
  rw [if_neg hmech]
  cases readFields [.string] pkt with
  | error _ => exact h
  | ok r =>
    dsimp only
    cases hauth : c.authData with
    | none => exact h
    | some a =>
      dsimp only
      by_cases hlength : sessionKeyLength ≠ (textAt r.1 0).length
      · rw [if_pos hlength]
        exact h.deny
      rw [if_neg hlength]
      by_cases hverifies : cfg.srpVerifies a (textAt r.1 0) = true
      · rw [if_pos hverifies]
        have hshown := h.shows hnew
          [Shown.proof a (textAt r.1 0) (decide (c.state = .active))]
        rw [hauth] at hshown
        refine authSucceeded_sound hshown ⟨a, textAt r.1 0, ?_, h.session a hauth, hverifies⟩
        exact List.mem_append_right _ (List.mem_singleton_self _)
      · rw [if_neg hverifies, hsp, if_neg (by simp)]
        split_ifs
        · exact h.resetChosenMech hnew
        · exact h.deny

/-- No packet makes a client something it has not shown to be. -/
theorem handleCommand_sound (hsp : cfg.isSingleplayer = false) (h : Sound cfg c) :
    Sound cfg (handleCommand cfg ans others auth c pkt handler).client := by
  cases handler with
  | init => exact handleCommandInit_sound h
  | initFm =>
    unfold handleCommand
    split_ifs
    · exact h
    · exact h
  | init2 => exact handleCommandInit2_sound h
  | clientReady => exact handleCommandClientReady_sound h
  | firstSrp => exact handleCommandFirstSrp_sound h
  | srpBytesA => exact handleCommandSrpBytesA_sound h
  | srpBytesM => exact handleCommandSrpBytesM_sound hsp h
  | drawcontrol => exact h
  | gotBlocks => exact h
  | requestMedia => exact h
  | null => exact h
  | game => exact h

theorem Sound.caught {r : Handled} (h : Sound cfg r.client) : Sound cfg r.caught := by
  unfold Handled.caught
  split
  · exact h.deny
  · exact h

end Freeminer.Login
