import Mathlib.Tactic.TypeStar

/-! Machines that answer each operation, and when one of them answers as another does. A relation
of their states that every allowed operation keeps, with the same answer on both sides, gives the
same answers over whole runs. -/

namespace Freeminer.Lib

/-- Where a machine starts, and what an operation does: the state after it and the answer, or
nothing where the operation is not possible. -/
structure Machine (σ α β : Type*) where
  init : σ
  step : σ → α → Option (σ × β)

namespace Machine

variable {σ τ α β : Type*} (M : Machine σ α β) (N : Machine τ α β)

def run (s : σ) : List α → Option (σ × List β)
  | [] => some (s, [])
  | a :: as => (M.step s a).bind fun x => (run x.1 as).map fun y => (y.1, x.2 :: y.2)

def answers (as : List α) : Option (List β) := (M.run M.init as).map Prod.snd

/-- Every operation of a run that is possible is allowed in the state before it. -/
def Allowed (ok : σ → α → Prop) (s : σ) : List α → Prop
  | [] => True
  | a :: as => ok s a ∧ (M.step s a).elim True fun x => Allowed ok x.1 as

instance decidableElim {γ : Type*} {P : γ → Prop} [DecidablePred P] :
    (o : Option γ) → Decidable (o.elim True P)
  | none => .isTrue trivial
  | some x => inferInstanceAs (Decidable (P x))

instance decidableAllowed (ok : σ → α → Prop) [∀ s a, Decidable (ok s a)] :
    (s : σ) → (as : List α) → Decidable (M.Allowed ok s as)
  | _, [] => .isTrue trivial
  | s, a :: as =>
    have : DecidablePred fun x : σ × β => M.Allowed ok x.1 as :=
      fun x => decidableAllowed ok x.1 as
    inferInstanceAs (Decidable (ok s a ∧ _))

/-- What two machines do agrees: both do nothing, or both answer the same. -/
def Agree (R : σ → τ → Prop) : Option (σ × β) → Option (τ × β) → Prop
  | none, none => True
  | some x, some y => R x.1 y.1 ∧ x.2 = y.2
  | _, _ => False

variable {M N} {ok : σ → α → Prop} {R : σ → τ → Prop} {s : σ} {t : τ}

theorem Allowed.next {a : α} {as : List α} (h : M.Allowed ok s (a :: as)) {x : σ × β}
    (hx : M.step s a = some x) : M.Allowed ok x.1 as := by
  have := h.2
  rwa [hx] at this

/-- The simulation rule, where both machines allow the operations. -/
theorem agree_run_both {ok' : τ → α → Prop}
    (hstep : ∀ s t a, R s t → ok s a → ok' t a → Agree R (M.step s a) (N.step t a))
    (as : List α) (hR : R s t) (hok : M.Allowed ok s as) (hok' : N.Allowed ok' t as) :
    Option.map Prod.snd (M.run s as) = Option.map Prod.snd (N.run t as) ∧
      ∀ s' bs, M.run s as = some (s', bs) → ∃ t', N.run t as = some (t', bs) ∧ R s' t' := by
  induction as generalizing s t with
  | nil =>
    refine ⟨rfl, fun s' bs h => ?_⟩
    obtain ⟨rfl, rfl⟩ := Prod.mk.inj (Option.some.inj h)
    exact ⟨t, rfl, hR⟩
  | cons a as ih =>
    have hag := hstep s t a hR hok.1 hok'.1
    unfold run
    cases hs : M.step s a with
    | none =>
      cases ht : N.step t a with
      | none => simp
      | some y => simp [hs, ht, Agree] at hag
    | some x =>
      cases ht : N.step t a with
      | none => simp [hs, ht, Agree] at hag
      | some y =>
        obtain ⟨hR', hb⟩ : R x.1 y.1 ∧ x.2 = y.2 := by simpa [hs, ht, Agree] using hag
        obtain ⟨heq, hst⟩ := ih hR' (hok.next hs) (hok'.next ht)
        refine ⟨?_, fun s' bs h => ?_⟩
        · simp only [Option.bind_some, Option.map_map]
          have := congrArg (Option.map (x.2 :: ·)) heq
          simp only [Option.map_map] at this
          rw [hb] at this ⊢
          exact this
        · obtain ⟨z, hz, hzs⟩ := Option.map_eq_some_iff.mp h
          obtain ⟨rfl, rfl⟩ := Prod.mk.inj hzs
          obtain ⟨t', ht', hR''⟩ := hst z.1 z.2 hz
          exact ⟨t', by simp [ht', hb], hR''⟩

/-- What a run allows after its first operations. -/
theorem Allowed.append {as bs : List α} {r : σ × List β} (h : M.Allowed ok s (as ++ bs))
    (hr : M.run s as = some r) : M.Allowed ok r.1 bs := by
  induction as generalizing s r with
  | nil => exact Option.some.inj hr ▸ h
  | cons a as ih =>
    obtain ⟨x, hx, hr⟩ := Option.bind_eq_some_iff.mp hr
    obtain ⟨y, hy, rfl⟩ := Option.map_eq_some_iff.mp hr
    change M.Allowed ok y.1 bs
    exact ih (h.next hx) hy

/-- What allows the same operations in each state with an invariant allows the same runs. -/
theorem allowed_congr {I : σ → Prop} {ok₂ : σ → α → Prop}
    (hI : ∀ s a x, I s → M.step s a = some x → I x.1) (h : ∀ s a, I s → (ok s a ↔ ok₂ s a))
    (as : List α) (hs : I s) : M.Allowed ok s as ↔ M.Allowed ok₂ s as := by
  induction as generalizing s with
  | nil => rfl
  | cons a as ih =>
    unfold Allowed
    rw [h s a hs]
    cases hx : M.step s a with
    | none => rfl
    | some x => exact and_congr_right fun _ => ih (hI s a x hs hx)

/-- The invariant rule. -/
theorem run_invariant {I : σ → Prop} (hI : ∀ s a x, I s → M.step s a = some x → I x.1)
    (as : List α) (hs : I s) {s' : σ} {bs : List β} (h : M.run s as = some (s', bs)) : I s' := by
  induction as generalizing s bs with
  | nil => exact (Prod.mk.inj (Option.some.inj h)).1 ▸ hs
  | cons a as ih =>
    obtain ⟨x, hx, h⟩ := Option.bind_eq_some_iff.mp h
    obtain ⟨y, hy, heq⟩ := Option.map_eq_some_iff.mp h
    obtain ⟨rfl, -⟩ := Prod.mk.inj heq
    exact ih (hI s a x hs hx) hy

/-- The invariant rule for a run all of which is allowed, with what the answers have in common. -/
theorem Allowed.run_invariant {I : σ → Prop} {Q : β → Prop}
    (hI : ∀ s a x, I s → ok s a → M.step s a = some x → I x.1 ∧ Q x.2) {as : List α}
    (hok : M.Allowed ok s as) (hs : I s) {s' : σ} {bs : List β} (h : M.run s as = some (s', bs)) :
    I s' ∧ ∀ b ∈ bs, Q b := by
  induction as generalizing s bs with
  | nil =>
    obtain ⟨rfl, rfl⟩ := Prod.mk.inj (Option.some.inj h)
    exact ⟨hs, fun b hb => absurd hb List.not_mem_nil⟩
  | cons a as ih =>
    obtain ⟨x, hx, h⟩ := Option.bind_eq_some_iff.mp h
    obtain ⟨y, hy, heq⟩ := Option.map_eq_some_iff.mp h
    obtain ⟨rfl, rfl⟩ := Prod.mk.inj heq
    obtain ⟨hnext, hanswer⟩ := hI s a x hs hok.1 hx
    obtain ⟨hlast, hrest⟩ := ih (hok.next hx) hnext hy
    refine ⟨hlast, fun b hb => ?_⟩
    rcases List.mem_cons.mp hb with rfl | hb
    · exact hanswer
    · exact hrest b hb

/-- A property of states that each step keeps just when it is allowed holds all the time just when
all of a run is allowed. -/
theorem always_iff_allowed {I : σ → Prop}
    (h : ∀ s a x, I s → M.step s a = some x → (I x.1 ↔ ok s a))
    (hpossible : ∀ s a, (M.step s a).isSome = true) (as : List α) (hs : I s) :
    (∀ as' rest r, as = as' ++ rest → M.run s as' = some r → I r.1) ↔ M.Allowed ok s as := by
  induction as generalizing s with
  | nil =>
    refine iff_of_true ?_ trivial
    intro as' rest r has hr
    obtain ⟨rfl, -⟩ := List.append_eq_nil_iff.mp has.symm
    exact Option.some.inj hr ▸ hs
  | cons a as ih =>
    obtain ⟨x, hx⟩ := Option.isSome_iff_exists.mp (hpossible s a)
    unfold Allowed
    rw [hx]
    constructor
    · intro hall
      have hI : I x.1 := hall [a] as (x.1, [x.2]) rfl (by simp [run, hx])
      refine ⟨(h s a x hs hx).mp hI, (ih hI).mp ?_⟩
      intro as' rest r has hr
      exact hall (a :: as') rest (r.1, x.2 :: r.2) (by rw [has, List.cons_append])
        (by simp [run, hx, hr])
    · rintro ⟨hok, hall⟩ as' rest r has hr
      have hI : I x.1 := (h s a x hs hx).mpr hok
      cases as' with
      | nil => exact Option.some.inj hr ▸ hs
      | cons b as' =>
        obtain ⟨rfl, htail⟩ := List.cons.inj (has.trans (List.cons_append ..))
        obtain ⟨y, hy, hr⟩ := Option.bind_eq_some_iff.mp hr
        obtain rfl := Option.some.inj (hx.symm.trans hy)
        obtain ⟨z, hz, rfl⟩ := Option.map_eq_some_iff.mp hr
        exact (ih hI).mpr hall as' rest z htail hz

theorem allowed_true (s : σ) (as : List α) : M.Allowed (fun _ _ => True) s as := by
  induction as generalizing s with
  | nil => trivial
  | cons a as ih =>
    refine ⟨trivial, ?_⟩
    cases M.step s a with
    | none => trivial
    | some x => exact ih x.1

/-- The simulation rule. -/
theorem agree_run (hstep : ∀ s t a, R s t → ok s a → Agree R (M.step s a) (N.step t a))
    (as : List α) (hR : R s t) (hok : M.Allowed ok s as) :
    Option.map Prod.snd (M.run s as) = Option.map Prod.snd (N.run t as) ∧
      ∀ s' bs, M.run s as = some (s', bs) → ∃ t', N.run t as = some (t', bs) ∧ R s' t' :=
  agree_run_both (fun s t a h ha _ => hstep s t a h ha) as hR hok (allowed_true t as)

theorem answers_of_agree (hstep : ∀ s t a, R s t → ok s a → Agree R (M.step s a) (N.step t a))
    (h0 : R M.init N.init) {as : List α} (hok : M.Allowed ok M.init as) :
    M.answers as = N.answers as :=
  (agree_run hstep as h0 hok).1

end Machine

end Freeminer.Lib
