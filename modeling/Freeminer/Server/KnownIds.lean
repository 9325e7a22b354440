import Freeminer.Server.KnownObjects

/-! An id that a client knows stays with its object, as long as the data of no known object that is
deactivated is refused. -/

set_option linter.unusedSectionVars false

namespace Freeminer.Server

open Lib Util
open Mtp (SessionT PEER_ID_INEXISTENT)

variable {B P E τ : Type} [DecidableEq B] [DecidableEq τ] {R : ObjectRules B P E}

/-- The static data of an object that a client knows and that is deactivated can be saved. -/
def ServerEnvironment.KeepsKnown (R : ObjectRules B P E) (ans : UInt16 → ObjectAnswers)
    (env : ServerEnvironment B P E τ) (id : UInt16) (o : ℕ) : Prop :=
  env.deactivates R o (ans id) = true → 0 < (env.obj o).knownByCount →
    R.isStaticAllowed (env.obj o).entity = true → (ans id).saves = true ∧
      (env.blocks (R.getNodeBlockPos (env.obj o).pos)).stored.length < R.limit

instance (ans : UInt16 → ObjectAnswers) (env : ServerEnvironment B P E τ) (id : UInt16) (o : ℕ) :
    Decidable (env.KeepsKnown R ans id o) := inferInstanceAs (Decidable (_ → _))

/-- That is when a known object is not deleted. -/
theorem ServerEnvironment.keepsKnown_iff {env : ServerEnvironment B P E τ} {id : UInt16} {o : ℕ}
    {ans : UInt16 → ObjectAnswers} : env.KeepsKnown R ans id o ↔
      ((env.deactivateFar R id o (ans id)).2 = true → (env.obj o).knownByCount = 0) := by
  rw [deactivateFar_accepts_iff, KeepsKnown, ← Bool.not_eq_true, updateStatic_saved_iff]
  constructor
  · intro hkeeps hacc
    by_contra hne
    have hpos : 0 < (env.obj o).knownByCount := UInt16.pos_iff_ne_zero.mpr hne
    exact hacc.2 hpos (hkeeps hacc.1 hpos)
  · intro hkeeps hdeactivates hpos
    by_contra hnot
    have hzero := hkeeps ⟨hdeactivates, fun _ => hnot⟩
    exact UInt16.pos_iff_ne_zero.mp hpos hzero

namespace KnownState

variable {s s' : KnownState B P E τ} {op : KnownOp B P E τ}

/-- The passes in which the data of no known object is refused, and all other operations. -/
def Ok (R : ObjectRules B P E) (s : KnownState B P E τ) : KnownOp B P E τ → Prop
  | .deactivateFarObjects ans _ =>
    ServerEnvironment.VisitAllowed (fun env id o => env.deactivateFar R id o (ans id))
      (ServerEnvironment.KeepsKnown R ans) s.env s.env.mgr.activeObjects.entries
  | _ => True

instance decidableOk (s : KnownState B P E τ) : (op : KnownOp B P E τ) → Decidable (s.Ok R op)
  | .deactivateFarObjects _ _ => ServerEnvironment.decidableVisitAllowed _ _ _ _
  | .addActiveObject .. | .activateObjects .. | .setBasePosition .. | .setActiveBlocks _
  | .markForRemoval _ | .markForDeactivation _ | .removeRemovedObjects .. | .createClient _
  | .deleteClient _ | .sendActiveObjectRemoveAdd .. => .isTrue trivial

structure Inv (s : KnownState B P E τ) : Prop where
  env : s.env.Inv
  peers : PEER_ID_INEXISTENT ∉ s.clients
  known : ∀ p k, s.clients.lookup p = some k → ∀ id ∈ k, (s.env.getObject id).isSome = true
  count : ∀ id o, s.env.getObject id = some o →
    (s.env.obj o).knownByCount.toNat = s.knownBy id
  unknown : ∀ id ∈ s.env.mgr.objectsToRemove, s.knownBy id = 0

theorem knownBy_eq_zero {id : UInt16} :
    s.knownBy id = 0 ↔ ∀ p k, s.clients.lookup p = some k → id ∉ k := by
  rw [knownBy, List.countP_eq_zero]
  constructor
  · intro h p k hk hid
    exact h ⟨p, k⟩ (AList.mem_lookup_iff.mp hk) (decide_eq_true hid)
  · intro h c hc
    simpa using h c.1 c.2 (AList.mem_lookup_iff.mpr hc)

theorem Inv.knownBy_of_none (h : s.Inv) {id : UInt16} (hid : s.env.getObject id = none) :
    s.knownBy id = 0 := by
  rw [knownBy_eq_zero]
  intro p k hk hmem
  have := h.known p k hk id hmem
  rw [hid] at this
  cases this

theorem Inv.grows {env : ServerEnvironment B P E τ} (h : s.Inv) (hgrows : s.env.Grows env) :
    ({ s with env } : KnownState B P E τ).Inv := by
  refine ⟨hgrows.inv, h.peers, fun p k hk id hid => ?_, fun id o ho => ?_, fun id hid => ?_⟩
  · obtain ⟨o, ho⟩ := Option.isSome_iff_exists.mp (h.known p k hk id hid)
    exact Option.isSome_iff_exists.mpr ⟨o, (hgrows.old id o ho).1⟩
  · rcases hgrows.new id o ho with hold | ⟨hnone, hzero⟩
    · exact (congrArg UInt16.toNat (hgrows.old id o hold).2).trans (h.count id o hold)
    · exact (congrArg UInt16.toNat hzero).trans (h.knownBy_of_none hnone).symm
  · exact h.unknown id (hgrows.waiting ▸ hid)

/-- Objects are removed by a pass that accepts none that a client knows. -/
theorem Inv.clearIf (h : s.Inv)
    {cb : ServerEnvironment B P E τ → UInt16 → ℕ → ServerEnvironment B P E τ × Bool}
    {ok : ServerEnvironment B P E τ → UInt16 → ℕ → Prop}
    (hcb : ∀ (env : ServerEnvironment B P E τ) id o, env.SameTable (cb env id o).1)
    (hgone : ∀ (env : ServerEnvironment B P E τ) id o, (cb env id o).2 = true →
      ((cb env id o).1.obj o).isGone = true)
    (hzero : ∀ (env : ServerEnvironment B P E τ) id o, ok env id o → (cb env id o).2 = true →
      (env.obj o).knownByCount = 0)
    (hok : ServerEnvironment.VisitAllowed cb ok s.env s.env.mgr.activeObjects.entries)
    (locked : Bool) :
    ({ s with env := s.env.clearIf cb locked } : KnownState B P E τ).Inv ∧
      ∀ id o, s.env.getObject id = some o → (s.env.clearIf cb locked).getObject id ≠ some o →
        s.knownBy id = 0 := by
  obtain ⟨hinv, htable, hwaiting⟩ := h.env.clearIf hcb hgone locked
  have hsame : s.env.SameTable
      (ServerEnvironment.visit cb s.env s.env.mgr.activeObjects.entries).1 :=
    ServerEnvironment.sameTable_visit hcb
  -- what is accepted is not known
  have haccepted : ∀ id, id ∈ s.env.mgr.objectsToRemove ∨
      id ∈ (ServerEnvironment.visit cb s.env s.env.mgr.activeObjects.entries).2 →
      s.knownBy id = 0 := by
    rintro id (hid | hid)
    · exact h.unknown id hid
    · obtain ⟨env₁, o, hmem, hbefore, hok₁, hacc, -⟩ := ServerEnvironment.mem_visit hcb hok hid
      have ho : s.env.getObject id = some o :=
        (h.env.mgr.getActiveObject id).trans (h.env.mgr.mem_entries.mp hmem)
      have hcount := hzero env₁ id o hok₁ hacc
      rw [hbefore.count] at hcount
      rw [← h.count id o ho, hcount]
      rfl
  have hleaves : ∀ id o, s.env.getObject id = some o →
      (s.env.clearIf cb locked).getObject id ≠ some o → s.knownBy id = 0 := by
    intro id o ho hnot
    rw [ne_eq, htable, not_and, not_not] at hnot
    exact haccepted id (hnot ho).2
  refine ⟨⟨hinv, h.peers, fun p k hk id hid => ?_, fun id o ho => ?_, fun id hid => ?_⟩, hleaves⟩
  · obtain ⟨o, ho⟩ := Option.isSome_iff_exists.mp (h.known p k hk id hid)
    refine Option.isSome_iff_exists.mpr ⟨o, ?_⟩
    by_contra hnot
    exact knownBy_eq_zero.mp (hleaves id o ho hnot) p k hk hid
  · rw [← show s.knownBy id = ({ s with env := s.env.clearIf cb locked } :
      KnownState B P E τ).knownBy id from rfl, ← h.count id o ((htable id o).mp ho).1]
    exact congrArg UInt16.toNat (hsame.count o)
  · exact haccepted id ((hwaiting id).mp hid).2

/-! ### Clients -/

def rest (s : KnownState B P E τ) (p : SessionT) (id : UInt16) : ℕ :=
  (s.clients.erase p).entries.countP fun c => decide (id ∈ c.2)

variable {p : SessionT} {k k' : Std.ExtTreeSet UInt16} {env : ServerEnvironment B P E τ}

theorem knownBy_eq (hk : s.clients.lookup p = some k) (id : UInt16) :
    s.knownBy id = s.rest p id + if id ∈ k then 1 else 0 := by
  rw [knownBy, countP_entries_of_lookup _ hk]
  simp [rest]

theorem knownBy_insert (id : UInt16) :
    ({ env, clients := s.clients.insert p k } : KnownState B P E τ).knownBy id =
      s.rest p id + if id ∈ k then 1 else 0 := by
  rw [knownBy, countP_entries_insert]
  simp [rest]

theorem Inv.counted (h : s.Inv) (hk : s.clients.lookup p = some k) :
    s.env.Counted (s.rest p) k :=
  fun id o ho => (h.count id o ho).trans (knownBy_eq hk id)

/-- The counters have sixteen bits, and so have the ids of clients. -/
theorem Inv.rest_lt (h : s.Inv) (hk : s.clients.lookup p = some k) (id : UInt16) :
    s.rest p id < 65535 := by
  have hall := countP_entries_of_lookup (fun _ => true) hk
  have hkeys : s.clients.keys.length < 65536 :=
    length_lt_of_nodup s.clients.keys_nodup h.peers
  have hlength : s.clients.keys.length = s.clients.entries.length := List.length_map _
  have hle : s.rest p id ≤ (s.clients.erase p).entries.length := List.countP_le_length
  simp only [List.countP_true, if_true] at hall
  omega

/-- The set of one client changes, and the counters with it. -/
theorem Inv.insert (h : s.Inv) (hp : p ≠ PEER_ID_INEXISTENT) (hsame : s.env.Recounts env)
    (hcounted : env.Counted (s.rest p) k') (hrest : ∀ id, s.rest p id ≤ s.knownBy id)
    (hknown : ∀ id ∈ k', (s.env.getObject id).isSome = true)
    (hwaiting : ∀ id ∈ s.env.mgr.objectsToRemove, id ∉ k') :
    ({ env, clients := s.clients.insert p k' } : KnownState B P E τ).Inv := by
  refine ⟨h.env.recounts hsame, fun hmem => ?_, fun p' k₁ hk₁ id hid => ?_, fun id o ho => ?_,
    fun id hid => ?_⟩
  · rcases (AList.mem_insert _).mp hmem with heq | hmem
    · exact hp heq.symm
    · exact h.peers hmem
  · rw [hsame.getObject]
    by_cases heq : p' = p
    · subst heq
      obtain rfl := Option.some.inj ((AList.lookup_insert _).symm.trans hk₁)
      exact hknown id hid
    · rw [AList.lookup_insert_ne heq] at hk₁
      exact h.known p' k₁ hk₁ id hid
  · rw [knownBy_insert]
    exact hcounted id o ho
  · have hid : id ∈ s.env.mgr.objectsToRemove := hsame.mgr ▸ hid
    have hzero := Nat.le_zero.mp (h.unknown id hid ▸ hrest id)
    rw [knownBy_insert, hzero, if_neg (hwaiting id hid)]

theorem Inv.createClient (h : s.Inv) (hp : p ≠ PEER_ID_INEXISTENT) : (s.createClient p).Inv := by
  unfold KnownState.createClient
  split_ifs with hmem
  · exact h
  · have hrest : ∀ id, s.rest p id = s.knownBy id := fun id =>
      countP_entries_erase_of_notMem _ hmem
    refine h.insert hp (.refl _) (fun id o ho => ?_) (fun id => (hrest id).le) (fun id hid => ?_)
      (fun id _ hid => ?_)
    · rw [h.count id o ho, hrest]
      simp
    · exact absurd hid Std.ExtTreeSet.not_mem_empty
    · exact absurd hid Std.ExtTreeSet.not_mem_empty

theorem nodup_toList (k : Std.ExtTreeSet UInt16) : k.toList.Nodup := by
  refine k.distinct_toList.imp ?_
  intro a b hne heq
  exact hne (heq ▸ Std.ReflCmp.compare_self)

theorem Inv.deleteClient (h : s.Inv) : (s.deleteClient p).Inv := by
  unfold KnownState.deleteClient
  split
  · exact h
  · rename_i k hk
    obtain ⟨hsame, hcounted, hmem⟩ := (h.counted hk).forget h.env (nodup_toList k)
      fun id hid => Std.ExtTreeSet.mem_toList.mp hid
    rw [ServerEnvironment.foldl_decrement k]
    have hrest : ∀ id, s.rest p id ≤ s.knownBy id := fun id => by
      rw [knownBy_eq hk]
      exact Nat.le_add_right _ _
    refine ⟨h.env.recounts hsame, fun hp => h.peers (AList.mem_erase.mp hp).2,
      fun p' k₁ hk₁ id hid => ?_, fun id o ho => ?_, fun id hid => ?_⟩
    · rw [hsame.getObject]
      have hne : p' ≠ p := by
        rintro rfl
        rw [AList.lookup_erase] at hk₁
        cases hk₁
      rw [AList.lookup_erase_ne hne] at hk₁
      exact h.known p' k₁ hk₁ id hid
    · have hnot : id ∉ (s.env.forget k k.toList).2 := by
        rw [hmem, Std.ExtTreeSet.mem_toList]
        exact fun hand => hand.2 hand.1
      have hcount := hcounted id o ho
      rw [if_neg hnot] at hcount
      exact hcount
    · have hid : id ∈ s.env.mgr.objectsToRemove := hsame.mgr ▸ hid
      exact Nat.le_zero.mp (h.unknown id hid ▸ hrest id)

end KnownState

/-! ### Packets -/

def RemoveAddPacket.Exact (pkt : RemoveAddPacket) : Prop :=
  pkt.removedCount.toNat = pkt.removed.length ∧ pkt.addedCount.toNat = pkt.added.length

namespace ServerEnvironment

variable {env : ServerEnvironment B P E τ} {view : PlayerView} {known : Std.ExtTreeSet UInt16}

theorem getRemovedActiveObjects_sublist :
    ((env.getRemovedActiveObjects view known).map Prod.snd).Sublist known.toList := by
  unfold getRemovedActiveObjects
  split_ifs
  · exact List.nil_sublist _
  · refine map_snd_filterMap_sublist ?_ _
    intro id x hx
    split at hx
    · rw [← Option.some.inj hx]
    · split_ifs at hx
      · rw [← Option.some.inj hx]
      · rw [← Option.some.inj hx]

theorem getAddedActiveObjects_sublist :
    (env.getAddedActiveObjects view known).Sublist
      ((env.mgr.activeObjects.entries.filter fun it =>
        !(env.obj it.2).isGone && view.inRange it.1 && view.isEffectivelyObservedBy it.1 &&
          !decide (it.1 ∈ known)).map Prod.fst) := by
  unfold getAddedActiveObjects
  dsimp only
  split_ifs
  · exact List.nil_sublist _
  · exact List.Sublist.refl _
  · exact List.take_sublist _ _

theorem nodup_getAddedActiveObjects (h : env.Inv) (view : PlayerView)
    (known : Std.ExtTreeSet UInt16) : (env.getAddedActiveObjects view known).Nodup := by
  exact getAddedActiveObjects_sublist.nodup
    (List.Nodup.sublist ((List.filter_sublist).map _) h.nodup_entries)

/-- What is added can be interacted with, and was not known. -/
theorem mem_getAddedActiveObjects (h : env.Inv) {id : UInt16}
    (hid : id ∈ env.getAddedActiveObjects view known) :
    id ∉ known ∧ ∃ o, env.getObject id = some o ∧ (env.obj o).isGone = false := by
  obtain ⟨⟨id', o⟩, hit, rfl⟩ := List.mem_map.mp (getAddedActiveObjects_sublist.subset hid)
  obtain ⟨hmem, hfilter⟩ := List.mem_filter.mp hit
  have ho : env.getObject id' = some o :=
    (h.mgr.getActiveObject id').trans (h.mgr.mem_entries.mp hmem)
  simp only [Bool.and_eq_true, Bool.not_eq_true', decide_eq_false_iff_not] at hfilter
  exact ⟨hfilter.2, o, ho, hfilter.1.1.1⟩

end ServerEnvironment

namespace KnownState

variable {s s' : KnownState B P E τ} {op : KnownOp B P E τ}

theorem Inv.sendActiveObjectRemoveAdd (h : s.Inv) (p : SessionT) (view : PlayerView) :
    (s.sendActiveObjectRemoveAdd p view).1.Inv ∧
      (s.sendActiveObjectRemoveAdd p view).1.env.mgr = s.env.mgr ∧
      ∀ pkt, (s.sendActiveObjectRemoveAdd p view).2 = some pkt → pkt.Exact := by
  unfold KnownState.sendActiveObjectRemoveAdd
  cases hk : s.clients.lookup p with
  | none => exact ⟨h, rfl, fun pkt hpkt => by cases hpkt⟩
  | some known =>
    dsimp only
    split_ifs
    · exact ⟨h, rfl, fun pkt hpkt => by cases hpkt⟩
    · exact ⟨h, rfl, fun pkt hpkt => by cases hpkt⟩
    · have hp : p ≠ PEER_ID_INEXISTENT := by
        rintro rfl
        exact h.peers (AList.lookup_isSome.mp (hk ▸ rfl))
      have hsub : ((s.env.getRemovedActiveObjects view known).map Prod.snd).Sublist known.toList :=
        ServerEnvironment.getRemovedActiveObjects_sublist
      have hremoved : ∀ id ∈ (s.env.getRemovedActiveObjects view known).map Prod.snd, id ∈ known :=
        fun id hid => Std.ExtTreeSet.mem_toList.mp (hsub.subset hid)
      have hnodup := hsub.nodup (nodup_toList known)
      have hnodup' := ServerEnvironment.nodup_getAddedActiveObjects h.env view known
      have hadded : ∀ id ∈ s.env.getAddedActiveObjects view known, id ∉ known ∧
          ∃ o, s.env.getObject id = some o ∧ (s.env.obj o).isGone = false := fun id hid =>
        ServerEnvironment.mem_getAddedActiveObjects h.env hid
      obtain ⟨hsame₁, hcounted₁, hmem₁⟩ := (h.counted hk).forget h.env hnodup hremoved
      obtain ⟨hsame₂, hcounted₂, hmem₂, hlength⟩ :=
        hcounted₁.learn (h.env.recounts hsame₁) view hnodup'
          (fun id hid hknown => (hadded id hid).1 ((hmem₁ id).mp hknown).1)
          (fun id hid => by
            obtain ⟨-, o, ho, hgone⟩ := hadded id hid
            rw [hsame₁.getActiveObject, ServerEnvironment.getActiveObject, ho]
            simp [hgone])
          (h.rest_lt hk)
      have hunknown : ∀ id ∈ s.env.mgr.objectsToRemove, id ∉ known := fun id hid =>
        knownBy_eq_zero.mp (h.unknown id hid) p known hk
      refine ⟨h.insert hp (hsame₁.trans hsame₂) hcounted₂ (fun id => ?_) (fun id hid => ?_)
        (fun id hid hknown => ?_), (hsame₁.trans hsame₂).mgr, fun pkt hpkt => ?_⟩
      · rw [knownBy_eq hk]
        exact Nat.le_add_right _ _
      · rcases (hmem₂ id).mp hid with hold | hnew
        · exact h.known p known hk id ((hmem₁ id).mp hold).1
        · obtain ⟨-, o, ho, -⟩ := hadded id hnew
          exact Option.isSome_iff_exists.mpr ⟨o, ho⟩
      · -- what waits is gone
        rcases (hmem₂ id).mp hknown with hold | hnew
        · exact hunknown id hid ((hmem₁ id).mp hold).1
        · obtain ⟨-, o, ho, hgone⟩ := hadded id hnew
          obtain ⟨o', ho', hgone'⟩ := h.env.waiting id hid
          obtain rfl := Option.some.inj (ho.symm.trans ho')
          exact Bool.false_ne_true (hgone.symm.trans hgone')
      · obtain rfl := Option.some.inj hpkt
        refine ⟨UInt16.toNat_ofNat_of_lt ?_, (UInt16.toNat_ofNat_of_lt ?_).trans hlength.symm⟩
        · refine length_lt_of_nodup hnodup fun h0 => ?_
          obtain ⟨o, ho⟩ := Option.isSome_iff_exists.mp (h.known p known hk 0 (hremoved 0 h0))
          exact h.env.ne_zero ho rfl
        · refine length_lt_of_nodup hnodup' fun h0 => ?_
          obtain ⟨-, o, ho, -⟩ := hadded 0 h0
          exact h.env.ne_zero ho rfl

/-! ### Runs -/

/-- Something about one object that is no counter. -/
theorem Inv.onObject (h : s.Inv) (id : UInt16) (f : ℕ → ServerEnvironment B P E τ)
    (hf : ∀ o, s.env.SameTable (f o)) :
    (s.onObject id f).Inv ∧ (s.onObject id f).env.mgr = s.env.mgr := by
  unfold KnownState.onObject
  split
  · exact ⟨h, rfl⟩
  · exact ⟨h.grows (h.env.grows (hf _)), (hf _).mgr⟩

/-- What an operation keeps, what it takes out of the table, and what it sends. -/
structure StepKept (s s' : KnownState B P E τ) (a : Option RemoveAddPacket) : Prop where
  inv : s'.Inv
  leaves : ∀ id o, s.env.getObject id = some o → s'.env.getObject id ≠ some o → s.knownBy id = 0
  exact : ∀ pkt, a = some pkt → pkt.Exact

theorem StepKept.of_mgr (h : s'.Inv) (hmgr : s'.env.mgr = s.env.mgr) : s.StepKept s' none := by
  refine ⟨h, fun id o ho hnot => absurd ?_ hnot, fun pkt hpkt => by cases hpkt⟩
  rw [ServerEnvironment.getObject, hmgr]
  exact ho

theorem Inv.stepKept_grows {env : ServerEnvironment B P E τ} (h : s.Inv)
    (hgrows : s.env.Grows env) : s.StepKept { s with env } none :=
  ⟨h.grows hgrows, fun id o ho hnot => absurd (hgrows.old id o ho).1 hnot,
    fun pkt hpkt => by cases hpkt⟩

theorem Inv.step (h : s.Inv) (hok : s.Ok R op) {x : KnownState B P E τ × Option RemoveAddPacket}
    (hx : s.step R op = some x) : s.StepKept x.1 x.2 := by
  cases op with
  | addActiveObject t type pos entity emerges =>
    obtain ⟨r, hr, rfl⟩ := Option.map_eq_some_iff.mp hx
    exact h.stepKept_grows (h.env.addActiveObject hr)
  | activateObjects t b ans =>
    obtain ⟨env, hr, rfl⟩ := Option.map_eq_some_iff.mp hx
    exact h.stepKept_grows (h.env.activateObjects hr)
  | setBasePosition id pos =>
    obtain rfl := Option.some.inj hx
    obtain ⟨hinv, hmgr⟩ := h.onObject id (fun o => s.env.setObj o { s.env.obj o with pos })
      fun o => ServerEnvironment.sameTable_setObj rfl fun hgone => hgone
    exact .of_mgr hinv hmgr
  | setActiveBlocks activeBlocks =>
    obtain rfl := Option.some.inj hx
    exact h.stepKept_grows (h.env.grows ⟨rfl, rfl, fun _ => rfl, fun _ hgone => hgone⟩)
  | markForRemoval id =>
    obtain rfl := Option.some.inj hx
    obtain ⟨hinv, hmgr⟩ := h.onObject id s.env.markForRemoval
      fun o => ServerEnvironment.sameTable_markForRemoval
    exact .of_mgr hinv hmgr
  | markForDeactivation id =>
    obtain rfl := Option.some.inj hx
    obtain ⟨hinv, hmgr⟩ := h.onObject id s.env.markForDeactivation
      fun o => ServerEnvironment.sameTable_markForDeactivation
    exact .of_mgr hinv hmgr
  | removeRemovedObjects ans locked =>
    obtain rfl := Option.some.inj hx
    have hall : ServerEnvironment.VisitAllowed
        (fun env id o => env.removeRemoved id o (ans id)) (fun _ _ _ => True) s.env
        s.env.mgr.activeObjects.entries := ServerEnvironment.visitAllowed_true _
    obtain ⟨hinv, hleaves⟩ := h.clearIf
      (fun env id o => ServerEnvironment.sameTable_removeRemoved (ans id))
      (fun env id o hacc => (ServerEnvironment.sameTable_removeRemoved (ans id)).gone o
        (ServerEnvironment.removeRemoved_accepts hacc).1)
      (fun env id o _ hacc => (ServerEnvironment.removeRemoved_accepts hacc).2) hall locked
    exact ⟨hinv, hleaves, fun pkt hpkt => by cases hpkt⟩
  | deactivateFarObjects ans locked =>
    obtain rfl := Option.some.inj hx
    obtain ⟨hinv, hleaves⟩ := h.clearIf
      (fun env id o => ServerEnvironment.sameTable_deactivateFar (ans id))
      (fun env id o hacc => ServerEnvironment.deactivateFar_gone hacc)
      (fun env id o hkeeps => ServerEnvironment.keepsKnown_iff.mp hkeeps) hok locked
    exact ⟨hinv, hleaves, fun pkt hpkt => by cases hpkt⟩
  | createClient p =>
    unfold KnownState.step at hx
    dsimp only at hx
    split_ifs at hx with hp
    obtain rfl := Option.some.inj hx
    refine .of_mgr (h.createClient hp) ?_
    unfold KnownState.createClient
    split_ifs <;> rfl
  | deleteClient p =>
    obtain rfl := Option.some.inj hx
    refine .of_mgr h.deleteClient ?_
    unfold KnownState.deleteClient
    split
    · rfl
    · exact ServerEnvironment.mgr_foldl_decrement _
  | sendActiveObjectRemoveAdd p view =>
    obtain rfl := Option.some.inj hx
    obtain ⟨hinv, hmgr, hexact⟩ := h.sendActiveObjectRemoveAdd p view
    refine ⟨hinv, fun id o ho hnot => absurd ?_ hnot, hexact⟩
    rw [ServerEnvironment.getObject, hmgr]
    exact ho

theorem inv_start (lastUsedId : τ → UInt16) (obj : ℕ → ServerActiveObject B P E)
    (blocks : B → StaticObjectList P E) (activeBlocks : B → Bool) :
    (start lastUsedId obj blocks activeBlocks).Inv := by
  have hmgr : (start lastUsedId obj blocks activeBlocks).env.mgr.Inv :=
    Traced.inv_start _ lastUsedId
  have hnone : ∀ id, (start lastUsedId obj blocks activeBlocks).env.getObject id = none := by
    intro id
    rw [ServerEnvironment.getObject, ActiveObjectMgr.getActiveObject]
    simp [start, ModifySafeMap.get, ModifySafeMap.find]
  refine ⟨⟨hmgr, fun id o ho => ?_, fun id hid => ?_⟩, AList.notMem_empty _, fun p k hk => ?_,
    fun id o ho => ?_, fun id hid => ?_⟩
  · cases (hnone id).symm.trans ho
  · exact absurd hid List.not_mem_nil
  · rw [start, AList.lookup_empty] at hk
    cases hk
  · cases (hnone id).symm.trans ho
  · exact absurd hid List.not_mem_nil

/-- Known ids are meaningful: counters are right, an id that is known is taken, and an object leaves
the table only when no client knows it. -/
structure Sound (R : ObjectRules B P E) (s : KnownState B P E τ) : Prop where
  count : ∀ id o, s.env.getObject id = some o → (s.env.obj o).knownByCount.toNat = s.knownBy id
  known : ∀ p k, s.clients.lookup p = some k → ∀ id ∈ k, (s.env.getObject id).isSome = true
  leaves : ∀ op x, s.Ok R op → s.step R op = some x → ∀ id o, s.env.getObject id = some o →
    x.1.env.getObject id ≠ some o → ∀ p k, s.clients.lookup p = some k → id ∉ k

theorem Inv.sound (h : s.Inv) : s.Sound R :=
  ⟨h.count, h.known, fun _ _ hok hx id o ho hnot =>
    knownBy_eq_zero.mp ((h.step hok hx).leaves id o ho hnot)⟩

/-- In a run in which the data of no known object that is deactivated is refused, known ids are
meaningful, and the packets have as many entries as they announce. -/
theorem known_of_run {lastUsedId : τ → UInt16} {obj : ℕ → ServerActiveObject B P E}
    {blocks : B → StaticObjectList P E} {activeBlocks : B → Bool} {as : List (KnownOp B P E τ)}
    {bs : List (Option RemoveAddPacket)}
    (hok : (machine R (start lastUsedId obj blocks activeBlocks)).Allowed (Ok R)
      (start lastUsedId obj blocks activeBlocks) as)
    (hrun : (machine R (start lastUsedId obj blocks activeBlocks)).run
      (start lastUsedId obj blocks activeBlocks) as = some (s, bs)) :
    s.Sound R ∧ ∀ pkt, some pkt ∈ bs → pkt.Exact := by
  obtain ⟨hinv, hexact⟩ := hok.run_invariant (I := Inv)
    (Q := fun a => ∀ pkt, a = some pkt → pkt.Exact)
    (fun _ _ _ h hok hx => ⟨(h.step hok hx).inv, (h.step hok hx).exact⟩)
    (inv_start lastUsedId obj blocks activeBlocks) hrun
  exact ⟨hinv.sound, fun pkt hpkt => hexact _ hpkt pkt rfl⟩

/-- One block, at least 256 objects in it, all of them persistent. -/
def oneBlock : ObjectRules Unit Unit ℕ where
  getNodeBlockPos _ := ()
  overLimit _ := false
  broken _ := false
  farApart _ _ := false
  noBlock := ()
  isStaticAllowed _ := true
  maxObjects := 0

def oneBlockStart : KnownState Unit Unit ℕ Unit :=
  start (fun _ => 0) (fun _ => { type := 7, pos := (), entity := 0, staticBlock := () })
    (fun _ => {}) (fun _ => false)

/-- A client gets to know an object of a block that is not active. -/
def meetObject : List (KnownOp Unit Unit ℕ Unit) :=
  [.createClient 2, .addActiveObject () ACTIVEOBJECT_TYPE_LUAENTITY () 7 true,
    .sendActiveObjectRemoveAdd 2 { inRange := fun _ => true }]

/-- The object is deactivated, its data is saved, and it stays for the client. -/
theorem known_of_run_saved : ∃ s bs,
    (machine oneBlock oneBlockStart).run oneBlockStart
      (meetObject ++ [.deactivateFarObjects (fun _ => {}) true]) = some (s, bs) ∧
    s.Sound oneBlock ∧ ∀ pkt, some pkt ∈ bs → pkt.Exact := by
  obtain ⟨⟨s, bs⟩, hrun⟩ := Option.isSome_iff_exists.mp
    (show ((machine oneBlock oneBlockStart).run oneBlockStart
      (meetObject ++ [.deactivateFarObjects (fun _ => {}) true])).isSome = true by decide)
  exact ⟨s, bs, hrun, known_of_run (by decide) hrun⟩

/-- The block does not emerge when the data is saved: the client knows an id that is free. -/
theorem not_known : ¬∀ (as : List (KnownOp Unit Unit ℕ Unit)) s bs,
    (machine oneBlock oneBlockStart).run oneBlockStart as = some (s, bs) →
    ∀ p k, s.clients.lookup p = some k → ∀ id ∈ k, (s.env.getObject id).isSome = true := by
  intro h
  obtain ⟨⟨s, bs⟩, hrun⟩ := Option.isSome_iff_exists.mp
    (show ((machine oneBlock oneBlockStart).run oneBlockStart
      (meetObject ++ [.deactivateFarObjects (fun _ => { saves := false }) true])).isSome = true by
      decide)
  have hend : ((machine oneBlock oneBlockStart).run oneBlockStart
      (meetObject ++ [.deactivateFarObjects (fun _ => { saves := false }) true])).map
        (fun r => ((r.1.env.getObject 1).isSome,
          (r.1.clients.lookup 2).map fun k => decide (1 ∈ k))) = some (false, some true) := by
    decide
  rw [hrun] at hend
  obtain ⟨hfree, hknown⟩ := Prod.mk.inj (Option.some.inj hend)
  obtain ⟨k, hk, hmem⟩ := Option.map_eq_some_iff.mp hknown
  have hlive := h _ s bs hrun 2 k hk 1 (of_decide_eq_true hmem)
  exact Bool.false_ne_true (hfree.symm.trans hlive)

end KnownState

end Freeminer.Server
