import Freeminer.Lib.Ledger
import Freeminer.Mtp.Packet
import Freeminer.Server.ActiveObjects

/-! Which objects the clients know: what a client is told of objects that appear and disappear, the
counter of an object that keeps its id taken, and the packets. -/

set_option linter.unusedSectionVars false

namespace Freeminer.Server

open Lib
open Mtp (SessionT PEER_ID_INEXISTENT)

variable {B P E τ : Type} [DecidableEq B] [DecidableEq τ] {R : ObjectRules B P E}

/-- `TOCLIENT_ACTIVE_OBJECT_REMOVE_ADD`; an added object comes with its type and its data. -/
structure RemoveAddPacket where
  removedCount : UInt16
  removed : List UInt16
  addedCount : UInt16
  added : List (UInt16 × UInt8 × List UInt8)

/-- How a player stands to the objects, and whether the client's set can be locked by
`getRemovedActiveObjects` and by `getAddedActiveObjects`. -/
structure PlayerView where
  observesItself : Bool := true
  lockRemoved : Bool := true
  lockAdded : Bool := true
  inRange : UInt16 → Bool
  isEffectivelyObservedBy : UInt16 → Bool := fun _ => true
  getSendType : UInt16 → UInt8 := fun _ => 101
  getClientInitializationData : UInt16 → List UInt8 := fun _ => []

/-- The environment, and `m_known_objects` of each client. -/
structure KnownState (B P E τ : Type) where
  env : ServerEnvironment B P E τ
  clients : AList fun _ : SessionT => Std.ExtTreeSet UInt16 := ∅

namespace ServerEnvironment

section Parts

variable (env : ServerEnvironment B P E τ) (view : PlayerView) (known : Std.ExtTreeSet UInt16)

def getRemovedActiveObjects : List (Bool × UInt16) :=
  if !view.lockRemoved then []
  else known.toList.filterMap fun id =>
    match env.getObject id with
    | none => some (true, id)
    | some o =>
      if (env.obj o).isGone then some (true, id)
      else if !view.inRange id || !view.isEffectivelyObservedBy id then some (false, id)
      else none

/-- A client that knows some objects is told of eleven more at most. -/
def getAddedActiveObjects : List UInt16 :=
  if !view.lockAdded then []
  else
    let added := (env.mgr.activeObjects.entries.filter fun it =>
      !(env.obj it.2).isGone && view.inRange it.1 && view.isEffectivelyObservedBy it.1 &&
        !decide (it.1 ∈ known)).map Prod.fst
    if known.isEmpty then added else added.take 11

def decrement (id : UInt16) : ServerEnvironment B P E τ :=
  match env.getObject id with
  | none => env
  | some o =>
    let obj := env.obj o
    if 0 < obj.knownByCount then env.setObj o { obj with knownByCount := obj.knownByCount - 1 }
    else env

def forget : ServerEnvironment B P E τ → Std.ExtTreeSet UInt16 → List UInt16 →
    ServerEnvironment B P E τ × Std.ExtTreeSet UInt16
  | env, known, [] => (env, known)
  | env, known, id :: ids => forget (env.decrement id) (known.erase id) ids

/-- The loop over the added objects, and what it puts into the packet. -/
def learn (view : PlayerView) : ServerEnvironment B P E τ → Std.ExtTreeSet UInt16 →
    List UInt16 →
    (ServerEnvironment B P E τ × Std.ExtTreeSet UInt16) × List (UInt16 × UInt8 × List UInt8)
  | env, known, [] => ((env, known), [])
  | env, known, id :: ids =>
    match env.getActiveObject id with
    | none => learn view env known ids
    | some o =>
      let obj := env.obj o
      let env := env.setObj o { obj with knownByCount := obj.knownByCount + 1 }
      let r := learn view env (known.insert id) ids
      (r.1, (id, view.getSendType id, view.getClientInitializationData id) :: r.2)

end Parts

end ServerEnvironment

inductive KnownOp (B P E τ : Type) where
  | addActiveObject (t : τ) (type : UInt8) (pos : P) (entity : E) (emerges : Bool)
  | activateObjects (t : τ) (b : B) (ans : ℕ → ActivationAnswers)
  | setBasePosition (id : UInt16) (pos : P)
  | setActiveBlocks (activeBlocks : B → Bool)
  | markForRemoval (id : UInt16)
  | markForDeactivation (id : UInt16)
  | removeRemovedObjects (ans : UInt16 → ObjectAnswers) (locked : Bool)
  | deactivateFarObjects (ans : UInt16 → ObjectAnswers) (locked : Bool)
  | createClient (peerId : SessionT)
  | deleteClient (peerId : SessionT)
  | sendActiveObjectRemoveAdd (peerId : SessionT) (view : PlayerView)

namespace KnownState

section Operations

variable (R : ObjectRules B P E) (s : KnownState B P E τ)

def onObject (id : UInt16) (f : ℕ → ServerEnvironment B P E τ) : KnownState B P E τ :=
  match s.env.getObject id with
  | none => s
  | some o => { s with env := f o }

/-- `CreateClient`; a client that is there stays. -/
def createClient (peerId : SessionT) : KnownState B P E τ :=
  if peerId ∈ s.clients then s else { s with clients := s.clients.insert peerId ∅ }

/-- `DeleteClient` -/
def deleteClient (peerId : SessionT) : KnownState B P E τ :=
  match s.clients.lookup peerId with
  | none => s
  | some known =>
    { env := known.toList.foldl ServerEnvironment.decrement s.env,
      clients := s.clients.erase peerId }

/-- `SendActiveObjectRemoveAdd`; a player that does not observe itself is an error. -/
def sendActiveObjectRemoveAdd (peerId : SessionT) (view : PlayerView) :
    KnownState B P E τ × Option RemoveAddPacket :=
  match s.clients.lookup peerId with
  | none => (s, none)
  | some known =>
    if !view.observesItself then (s, none)
    else
      let removed := (s.env.getRemovedActiveObjects view known).map Prod.snd
      let added := s.env.getAddedActiveObjects view known
      if removed.isEmpty && added.isEmpty then (s, none)
      else
        let x := ServerEnvironment.forget s.env known removed
        let y := ServerEnvironment.learn view x.1 x.2 added
        ({ env := y.1.1, clients := s.clients.insert peerId y.1.2 },
          some ⟨.ofNat removed.length, removed, .ofNat added.length, y.2⟩)

def step (s : KnownState B P E τ) :
    KnownOp B P E τ → Option (KnownState B P E τ × Option RemoveAddPacket)
  | .addActiveObject t type pos entity emerges =>
    (s.env.addActiveObject R t type pos entity emerges).map fun r => ({ s with env := r.1 }, none)
  | .activateObjects t b ans =>
    (s.env.activateObjects R t b ans).map fun env => ({ s with env }, none)
  | .setBasePosition id pos =>
    some (s.onObject id fun o => s.env.setObj o { s.env.obj o with pos }, none)
  | .setActiveBlocks activeBlocks => some ({ s with env := { s.env with activeBlocks } }, none)
  | .markForRemoval id => some (s.onObject id s.env.markForRemoval, none)
  | .markForDeactivation id => some (s.onObject id s.env.markForDeactivation, none)
  | .removeRemovedObjects ans locked =>
    some ({ s with env := s.env.removeRemovedObjects ans locked }, none)
  | .deactivateFarObjects ans locked =>
    some ({ s with env := s.env.deactivateFarObjects R ans locked }, none)
  | .createClient peerId =>
    if peerId = PEER_ID_INEXISTENT then none else some (s.createClient peerId, none)
  | .deleteClient peerId => some (s.deleteClient peerId, none)
  | .sendActiveObjectRemoveAdd peerId view => some (s.sendActiveObjectRemoveAdd peerId view)

end Operations

/-- A server without objects and clients; the blocks may have static data. -/
def start (lastUsedId : τ → UInt16) (obj : ℕ → ServerActiveObject B P E)
    (blocks : B → StaticObjectList P E) (activeBlocks : B → Bool) : KnownState B P E τ :=
  { env := { mgr := { id := fun _ => 0, lastUsedId }, obj, blocks, activeBlocks } }

def machine (R : ObjectRules B P E) (s : KnownState B P E τ) :
    Machine (KnownState B P E τ) (KnownOp B P E τ) (Option RemoveAddPacket) := ⟨s, step R⟩

def knownBy (s : KnownState B P E τ) (id : UInt16) : ℕ :=
  s.clients.entries.countP fun c => decide (id ∈ c.2)

end KnownState

/-! ## Counters -/

namespace ServerEnvironment

variable {env env' env'' : ServerEnvironment B P E τ} {id : UInt16} {o : ℕ}
  {rest : UInt16 → ℕ} {known : Std.ExtTreeSet UInt16} {ids : List UInt16}

structure Recounts (env env' : ServerEnvironment B P E τ) : Prop where
  mgr : env'.mgr = env.mgr
  made : env'.made = env.made
  gone : ∀ o, (env'.obj o).isGone = (env.obj o).isGone

@[refl] theorem Recounts.refl (env : ServerEnvironment B P E τ) : env.Recounts env :=
  ⟨rfl, rfl, fun _ => rfl⟩

theorem Recounts.trans (h : env.Recounts env') (h' : env'.Recounts env'') : env.Recounts env'' :=
  ⟨h'.mgr.trans h.mgr, h'.made.trans h.made, fun o => (h'.gone o).trans (h.gone o)⟩

theorem Recounts.getObject (h : env.Recounts env') (id : UInt16) :
    env'.getObject id = env.getObject id := by
  rw [ServerEnvironment.getObject, h.mgr]
  rfl

theorem Recounts.getActiveObject (h : env.Recounts env') (id : UInt16) :
    env'.getActiveObject id = env.getActiveObject id := by
  rw [ServerEnvironment.getActiveObject, ServerEnvironment.getActiveObject, h.getObject]
  simp only [h.gone]

theorem Inv.recounts (h : env.Inv) (hsame : env.Recounts env') : env'.Inv := by
  refine ⟨hsame.mgr ▸ h.mgr, fun id o ho => ?_, fun id hid => ?_⟩
  · rw [hsame.getObject] at ho
    rw [hsame.made]
    exact h.fresh id o ho
  · rw [hsame.mgr] at hid
    obtain ⟨o, ho, hgone⟩ := h.waiting id hid
    exact ⟨o, (hsame.getObject id).trans ho, (hsame.gone o).trans hgone⟩

theorem recounts_setObj (knownByCount : UInt16) :
    env.Recounts (env.setObj o { env.obj o with knownByCount }) := by
  refine ⟨rfl, rfl, fun o' => ?_⟩
  by_cases heq : o' = o
  · subst heq
    simp [setObj, ServerActiveObject.isGone]
  · simp [setObj, heq]

theorem recounts_decrement : env.Recounts (env.decrement id) := by
  unfold decrement
  split
  · rfl
  · dsimp only
    split_ifs
    · exact recounts_setObj _
    · rfl

/-- Each counter is what `rest` says, and one more for an object of the set. -/
def Counted (env : ServerEnvironment B P E τ) (rest : UInt16 → ℕ) (known : Std.ExtTreeSet UInt16) :
    Prop :=
  ∀ id o, env.getObject id = some o →
    (env.obj o).knownByCount.toNat = rest id + if id ∈ known then 1 else 0

theorem Counted.setObj {known' : Std.ExtTreeSet UInt16} (h : env.Counted rest known)
    (hinv : env.Inv) (ho : env.getObject id = some o) {knownByCount : UInt16}
    (hid : knownByCount.toNat = rest id + if id ∈ known' then 1 else 0)
    (hother : ∀ id', id' ≠ id → (id' ∈ known' ↔ id' ∈ known)) :
    (env.setObj o { env.obj o with knownByCount }).Counted rest known' := by
  intro id' o' ho'
  have ho' : env.getObject id' = some o' := ho'
  by_cases heq : id' = id
  · subst heq
    obtain rfl := Option.some.inj (ho.symm.trans ho')
    simpa [ServerEnvironment.setObj] using hid
  · have hne : o' ≠ o := by
      rintro rfl
      exact heq (hinv.id_unique ho' ho)
    simp only [ServerEnvironment.setObj, Function.update_of_ne hne, hother id' heq]
    exact h id' o' ho'

theorem Counted.decrement (h : env.Counted rest known) (hinv : env.Inv) (hid : id ∈ known) :
    (env.decrement id).Counted rest (known.erase id) := by
  have hother : ∀ id', id' ≠ id → (id' ∈ known.erase id ↔ id' ∈ known) := by
    intro id' hne
    rw [Std.ExtTreeSet.mem_erase]
    simp [Ne.symm hne]
  unfold ServerEnvironment.decrement
  cases ho : env.getObject id with
  | none =>
    intro id' o' ho'
    have hne : id' ≠ id := by
      rintro rfl
      cases ho.symm.trans ho'
    simp only [hother id' hne]
    exact h id' o' ho'
  | some o =>
    have hcount := h id o ho
    rw [if_pos hid] at hcount
    have hpos : 0 < (env.obj o).knownByCount := by
      rw [UInt16.lt_iff_toNat_lt, hcount]
      exact Nat.succ_pos _
    dsimp only
    rw [if_pos hpos]
    refine h.setObj hinv ho ?_ hother
    have hone : (1 : UInt16) ≤ (env.obj o).knownByCount := by
      rw [UInt16.le_iff_toNat_le, hcount]
      exact Nat.succ_le_succ (Nat.zero_le _)
    rw [UInt16.toNat_sub_of_le _ _ hone, hcount]
    simp

theorem Counted.forget (h : env.Counted rest known) (hinv : env.Inv) (hnodup : ids.Nodup)
    (hids : ∀ id ∈ ids, id ∈ known) :
    env.Recounts (env.forget known ids).1 ∧
      (env.forget known ids).1.Counted rest (env.forget known ids).2 ∧
      ∀ id, id ∈ (env.forget known ids).2 ↔ id ∈ known ∧ id ∉ ids := by
  induction ids generalizing env known with
  | nil => exact ⟨.refl env, h, fun id => by simp [ServerEnvironment.forget]⟩
  | cons id ids ih =>
    obtain ⟨hnot, hnodup⟩ := List.nodup_cons.mp hnodup
    have hthis := h.decrement hinv (hids id List.mem_cons_self)
    obtain ⟨hsame, hcounted, hmem⟩ := ih hthis (hinv.recounts recounts_decrement) hnodup
      (fun id' hid' => by
        rw [Std.ExtTreeSet.mem_erase]
        have hne : id ≠ id' := fun heq => hnot (heq ▸ hid')
        exact ⟨by simpa using hne, hids id' (List.mem_cons_of_mem _ hid')⟩)
    refine ⟨recounts_decrement.trans hsame, hcounted, fun id' => ?_⟩
    rw [ServerEnvironment.forget, hmem, Std.ExtTreeSet.mem_erase, List.mem_cons]
    simp only [ne_eq, Std.LawfulEqCmp.compare_eq_iff_eq, not_or]
    constructor
    · rintro ⟨⟨hne, hin⟩, hnin⟩
      exact ⟨hin, Ne.symm hne, hnin⟩
    · rintro ⟨hin, hne, hnin⟩
      exact ⟨⟨Ne.symm hne, hin⟩, hnin⟩

/-- `DeleteClient` does to the counters what a packet that removes all objects does. -/
theorem foldl_decrement (known : Std.ExtTreeSet UInt16) :
    ids.foldl decrement env = (env.forget known ids).1 := by
  induction ids generalizing env known with
  | nil => rfl
  | cons id ids ih => exact ih _

theorem mgr_foldl_decrement (ids : List UInt16) : (ids.foldl decrement env).mgr = env.mgr := by
  induction ids generalizing env with
  | nil => rfl
  | cons id ids ih =>
    rw [List.foldl_cons, ih]
    exact recounts_decrement.mgr

theorem Counted.learn (h : env.Counted rest known) (hinv : env.Inv) (view : PlayerView)
    (hnodup : ids.Nodup)
    (hids : ∀ id ∈ ids, id ∉ known) (hactive : ∀ id ∈ ids, (env.getActiveObject id).isSome = true)
    (hrest : ∀ id, rest id < 65535) :
    env.Recounts (env.learn view known ids).1.1 ∧
      (env.learn view known ids).1.1.Counted rest (env.learn view known ids).1.2 ∧
      (∀ id, id ∈ (env.learn view known ids).1.2 ↔ id ∈ known ∨ id ∈ ids) ∧
      (env.learn view known ids).2.length = ids.length := by
  induction ids generalizing env known with
  | nil => exact ⟨.refl env, h, fun id => by simp [ServerEnvironment.learn], rfl⟩
  | cons id ids ih =>
    obtain ⟨hnot, hnodup⟩ := List.nodup_cons.mp hnodup
    obtain ⟨o, hactiveId⟩ := Option.isSome_iff_exists.mp (hactive id List.mem_cons_self)
    have ho : env.getObject id = some o := (Option.filter_eq_some_iff.mp hactiveId).1
    have hcount := h id o ho
    rw [if_neg (hids id List.mem_cons_self)] at hcount
    have hsucc : ((env.obj o).knownByCount + 1).toNat = rest id + 1 := by
      have hlt := hrest id
      rw [UInt16.toNat_add, hcount]
      simp only [Nat.add_zero, UInt16.reduceToNat]
      omega
    have hthis : (env.setObj o { env.obj o with
        knownByCount := (env.obj o).knownByCount + 1 }).Counted rest (known.insert id) := by
      refine h.setObj hinv ho ?_ fun id' hne => ?_
      · rw [if_pos Std.ExtTreeSet.mem_insert_self]
        exact hsucc
      · rw [Std.ExtTreeSet.mem_insert]
        simp [Ne.symm hne]
    have hsame₁ : env.Recounts (env.setObj o { env.obj o with
        knownByCount := (env.obj o).knownByCount + 1 }) := recounts_setObj _
    obtain ⟨hsame, hcounted, hmem, hlength⟩ := ih hthis (hinv.recounts hsame₁) hnodup
      (fun id' hid' => by
        rw [Std.ExtTreeSet.mem_insert]
        have hne : id ≠ id' := fun heq => hnot (heq ▸ hid')
        simp [hne, hids id' (List.mem_cons_of_mem _ hid')])
      (fun id' hid' => by
        rw [hsame₁.getActiveObject]
        exact hactive id' (List.mem_cons_of_mem _ hid'))
    have hlearn : env.learn view known (id :: ids) =
        ((ServerEnvironment.learn view (env.setObj o { env.obj o with
            knownByCount := (env.obj o).knownByCount + 1 }) (known.insert id) ids).1,
          (id, view.getSendType id, view.getClientInitializationData id) ::
          (ServerEnvironment.learn view (env.setObj o { env.obj o with
            knownByCount := (env.obj o).knownByCount + 1 }) (known.insert id) ids).2) := by
      rw [ServerEnvironment.learn, hactiveId]
    rw [hlearn]
    refine ⟨hsame₁.trans hsame, hcounted, fun id' => ?_, ?_⟩
    · rw [hmem, Std.ExtTreeSet.mem_insert, List.mem_cons]
      simp only [Std.LawfulEqCmp.compare_eq_iff_eq]
      tauto
    · rw [List.length_cons, hlength, List.length_cons]

end ServerEnvironment

end Freeminer.Server
