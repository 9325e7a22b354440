import Freeminer.Lib.Grounded
import Freeminer.Util.Serialize

/-! `ModConfiguration` (`mod_configuration.cpp`): the mods that were found, and the order in which
those whose dependencies are met are loaded. -/

namespace Freeminer.Content

open Lib Relation

/-- What the configuration reads of a mod, and the dependencies that it crosses off. -/
structure ModSpec where
  name : ByteString
  depends : Finset ByteString := ∅
  optdepends : Finset ByteString := ∅
  unsatisfied_depends : Finset ByteString := ∅
  modpack_depth : ℤ := 0
  deriving DecidableEq

structure ModConfiguration where
  m_first_mod : ByteString := []
  m_last_mod : ByteString := []
  m_sorted_mods : List ModSpec := []
  m_unsatisfied_mods : List ModSpec := []
  m_name_conflicts : Finset ByteString := ∅
  deriving DecidableEq

inductive ModError where
  | firstNotFound
  | lastNotFound
  | firstHasDepends
  | dependsOnLast
  deriving DecidableEq

namespace ModConfiguration

/-! ## Adding mods -/

def override (mods : List ModSpec) (mod : ModSpec) : List ModSpec :=
  mods.map fun old => if old.name = mod.name then mod else old

/-- One turn of the inner loop of `addMods`, with the names that were seen in it. -/
def addMod (c : ModConfiguration) (seen_this_iteration : Finset ByteString) (mod : ModSpec) :
    ModConfiguration :=
  if (c.m_unsatisfied_mods.map ModSpec.name).contains mod.name then
    if mod.name ∈ seen_this_iteration then
      { c with
        m_unsatisfied_mods := override c.m_unsatisfied_mods mod
        m_name_conflicts := insert mod.name c.m_name_conflicts }
    else
      { c with
        m_unsatisfied_mods := override c.m_unsatisfied_mods mod
        m_name_conflicts := c.m_name_conflicts.erase mod.name }
  else { c with m_unsatisfied_mods := c.m_unsatisfied_mods ++ [mod] }

def addModsOf (c : ModConfiguration) (mods : List ModSpec) : ModConfiguration :=
  (mods.foldl (fun s mod => (addMod s.1 s.2 mod, insert mod.name s.2))
    (c, (∅ : Finset ByteString))).1

def addMods (c : ModConfiguration) (new_mods : List ModSpec) : ModConfiguration :=
  (c.addModsOf (new_mods.filter fun mod => 0 < mod.modpack_depth)).addModsOf
    (new_mods.filter fun mod => ¬0 < mod.modpack_depth)

/-! ## Dependencies -/

variable (c : ModConfiguration)

def first_mod_spec : Option ModSpec :=
  (c.m_unsatisfied_mods.filter fun mod => mod.name = c.m_first_mod).getLast?

def last_mod_spec : Option ModSpec :=
  (c.m_unsatisfied_mods.filter fun mod =>
    mod.name ≠ c.m_first_mod ∧ mod.name = c.m_last_mod).getLast?

def Between (mod : ModSpec) : Prop := mod.name ≠ c.m_first_mod ∧ mod.name ≠ c.m_last_mod

instance (mod : ModSpec) : Decidable (c.Between mod) := inferInstanceAs (Decidable (_ ∧ _))

/-- `modnames`: the mods that an optional dependency may be on. -/
def modnames : List ByteString := (c.m_unsatisfied_mods.filter (c.Between ·)).map ModSpec.name

def needs (mod : ModSpec) : Finset ByteString :=
  (mod.depends ∪ mod.optdepends.filter fun optdep => c.modnames.contains optdep).erase c.m_first_mod

def lastNeeds (mod : ModSpec) : Finset ByteString := mod.depends.erase c.m_first_mod

/-- What the loops of `resolveDependencies` work on; the back of the vector `satisfied` is first. -/
structure Resolving where
  sorted : List ModSpec
  satisfied : List ModSpec := []
  unsatisfied : List ModSpec := []
  last : Option ModSpec

def splitMod (s : Resolving) (mod : ModSpec) : Except ModError Resolving :=
  if c.Between mod then
    let mod := { mod with unsatisfied_depends := c.needs mod }
    if s.last.isSome ∧ c.m_last_mod ∈ mod.unsatisfied_depends then .error .dependsOnLast
    else if mod.unsatisfied_depends = ∅ then .ok { s with satisfied := mod :: s.satisfied }
    else .ok { s with unsatisfied := s.unsatisfied ++ [mod] }
  else .ok s

def crossOff (name : ByteString) (mod : ModSpec) : ModSpec :=
  { mod with unsatisfied_depends := mod.unsatisfied_depends.erase name }

/-- One turn of the loop over `satisfied`. The mods that become satisfied are pushed in the order of
the list. -/
def release (s : Resolving) (mod : ModSpec) (satisfied : List ModSpec) : Resolving :=
  let crossed := s.unsatisfied.map (crossOff mod.name)
  { sorted := s.sorted ++ [mod]
    satisfied := (crossed.filter (·.unsatisfied_depends = ∅)).reverse ++ satisfied
    unsatisfied := crossed.filter (·.unsatisfied_depends ≠ ∅)
    last := s.last.map (crossOff mod.name) }

/-- The loop over `satisfied`, for so many turns at most. -/
def releaseAll : ℕ → Resolving → Resolving
  | 0, s => s
  | n + 1, s =>
    match s.satisfied with
    | [] => s
    | mod :: satisfied => releaseAll n (release s mod satisfied)

def checkFirstLast : Except ModError Unit :=
  if c.m_first_mod ≠ [] ∧ c.first_mod_spec = none then .error .firstNotFound
  else if c.m_last_mod ≠ [] ∧ c.last_mod_spec = none then .error .lastNotFound
  else if c.first_mod_spec.any fun mod => mod.depends ≠ ∅ ∨ mod.optdepends ≠ ∅ then
    .error .firstHasDepends
  else .ok ()

/-- `resolveDependencies`; `shuffled` are the unsatisfied mods in the order that they are gone
through. -/
def resolveDependencies (shuffled : List ModSpec) : Except ModError ModConfiguration := do
  c.checkFirstLast
  let s ← shuffled.foldlM c.splitMod
    { sorted := c.m_sorted_mods ++ c.first_mod_spec.toList, last := c.last_mod_spec }
  let last := s.last.map fun mod => { mod with unsatisfied_depends := c.lastNeeds mod }
  let s := releaseAll shuffled.length { s with last }
  let ready := s.last.toList.filter (·.unsatisfied_depends = ∅)
  let stuck := s.last.toList.filter (·.unsatisfied_depends ≠ ∅)
  pure { c with m_sorted_mods := s.sorted ++ ready, m_unsatisfied_mods := s.unsatisfied ++ stuck }

/-! ## What is claimed of it -/

/-- A hard dependency of a mod of that name, apart from that on the first mod. -/
def Depends (a b : ByteString) : Prop :=
  ∃ mod ∈ c.m_unsatisfied_mods, mod.name = a ∧ b ∈ mod.depends ∧ b ≠ c.m_first_mod

/-- A dependency that has to be met: a hard one, or an optional one on a mod that is there; neither
on the first mod, nor are optional ones on the last mod or of it. -/
def Requires (a b : ByteString) : Prop :=
  c.Depends a b ∨ ∃ mod ∈ c.m_unsatisfied_mods, (mod.name = a ∧ a ≠ c.m_last_mod) ∧
    b ∈ mod.optdepends ∧ b ∈ c.modnames

def names : Set ByteString := {name | ∃ mod ∈ c.m_unsatisfied_mods, mod.name = name}

/-- Everything that a mod leads to is there, and none of it is on a cycle. -/
def Satisfiable (name : ByteString) : Prop :=
  ∀ b, ReflTransGen c.Requires name b → b ∈ c.names ∧ ¬TransGen c.Requires b b

/-- Nothing is wrong with the first and the last mod, and no mod depends on the last. -/
def Accepted : Prop :=
  c.checkFirstLast = .ok () ∧ (c.last_mod_spec.isSome = true →
    ∀ mod ∈ c.m_unsatisfied_mods, c.Between mod → c.m_last_mod ∉ c.needs mod)

/-- What is left of a configuration whose dependencies are resolved. -/
structure Resolved (c' : ModConfiguration) : Prop where
  nodup : (c'.m_sorted_mods.map ModSpec.name).Nodup
  mem : ∀ name, name ∈ c'.m_sorted_mods.map ModSpec.name ↔ c.Satisfiable name
  order : ∀ l₁ mod l₂, c'.m_sorted_mods = l₁ ++ mod :: l₂ →
    ∀ b, c.Requires mod.name b → b ∈ l₁.map ModSpec.name
  first : ∀ mod ∈ c.first_mod_spec, c'.m_sorted_mods.head? = some mod
  last : ∀ mod ∈ c.last_mod_spec, mod.name ∈ c'.m_sorted_mods.map ModSpec.name →
    (c'.m_sorted_mods.map ModSpec.name).getLast? = some mod.name

variable {c} {mod mod' : ModSpec} {name b : ByteString} {mods : List ModSpec} {s : Resolving}

/-! ## Names -/

theorem map_name_override (mods : List ModSpec) (mod : ModSpec) :
    (override mods mod).map ModSpec.name = mods.map ModSpec.name := by
  unfold override
  rw [List.map_map]
  refine List.map_congr_left fun old _ => ?_
  by_cases h : old.name = mod.name
  · rw [Function.comp_apply, if_pos h, h]
  · rw [Function.comp_apply, if_neg h]

theorem nodup_addMod (h : (c.m_unsatisfied_mods.map ModSpec.name).Nodup)
    (seen : Finset ByteString) (mod : ModSpec) :
    ((addMod c seen mod).m_unsatisfied_mods.map ModSpec.name).Nodup := by
  unfold addMod
  split_ifs with hknown hseen
  · rwa [map_name_override]
  · rwa [map_name_override]
  · rw [List.map_append, List.nodup_append]
    refine ⟨h, List.nodup_singleton _, fun a ha b hb => ?_⟩
    rw [List.map_singleton, List.mem_singleton] at hb
    rintro rfl
    rw [List.contains_eq_mem] at hknown
    exact hknown (by simpa [← hb] using ha)

theorem nodup_addModsOf (h : (c.m_unsatisfied_mods.map ModSpec.name).Nodup) (mods : List ModSpec) :
    ((c.addModsOf mods).m_unsatisfied_mods.map ModSpec.name).Nodup := by
  unfold addModsOf
  refine List.foldlRecOn (motive := fun (s : ModConfiguration × Finset ByteString) =>
    (s.1.m_unsatisfied_mods.map ModSpec.name).Nodup) mods _ h ?_
  exact fun s hs mod _ => nodup_addMod hs s.2 mod

theorem nodup_addMods (h : (c.m_unsatisfied_mods.map ModSpec.name).Nodup)
    (new_mods : List ModSpec) : ((c.addMods new_mods).m_unsatisfied_mods.map ModSpec.name).Nodup :=
  nodup_addModsOf (nodup_addModsOf h _) _

theorem eq_of_name (h : (c.m_unsatisfied_mods.map ModSpec.name).Nodup)
    (hmod : mod ∈ c.m_unsatisfied_mods) (hmod' : mod' ∈ c.m_unsatisfied_mods)
    (hname : mod.name = mod'.name) : mod = mod' :=
  List.inj_on_of_nodup_map h hmod hmod' hname

theorem getLast?_eq_of_unique {p : ModSpec → Bool} (hmod : mod ∈ mods) (hp : p mod = true)
    (hunique : ∀ mod' ∈ mods, p mod' = true → mod' = mod) :
    (mods.filter p).getLast? = some mod := by
  cases hlast : (mods.filter p).getLast? with
  | none =>
    rw [List.getLast?_eq_none_iff, List.filter_eq_nil_iff] at hlast
    exact absurd hp (hlast mod hmod)
  | some found =>
    obtain ⟨hfound, hpfound⟩ := List.mem_filter.1 (List.mem_of_getLast? hlast)
    rw [hunique found hfound hpfound]

theorem first_mod_spec_iff (h : (c.m_unsatisfied_mods.map ModSpec.name).Nodup) :
    c.first_mod_spec = some mod ↔ mod ∈ c.m_unsatisfied_mods ∧ mod.name = c.m_first_mod := by
  unfold first_mod_spec
  constructor
  · intro hlast
    simpa using List.mem_filter.1 (List.mem_of_getLast? hlast)
  · rintro ⟨hmod, hname⟩
    refine getLast?_eq_of_unique hmod (by simp [hname]) fun mod' hmod' hname' => ?_
    exact eq_of_name h hmod' hmod ((of_decide_eq_true hname').trans hname.symm)

theorem last_mod_spec_iff (h : (c.m_unsatisfied_mods.map ModSpec.name).Nodup) :
    c.last_mod_spec = some mod ↔ mod ∈ c.m_unsatisfied_mods ∧
      mod.name ≠ c.m_first_mod ∧ mod.name = c.m_last_mod := by
  unfold last_mod_spec
  constructor
  · intro hlast
    simpa using List.mem_filter.1 (List.mem_of_getLast? hlast)
  · rintro ⟨hmod, hname⟩
    refine getLast?_eq_of_unique hmod (by simpa using hname) fun mod' hmod' hname' => ?_
    exact eq_of_name h hmod' hmod ((of_decide_eq_true hname').2.trans hname.2.symm)

theorem mem_modnames :
    b ∈ c.modnames ↔ ∃ mod ∈ c.m_unsatisfied_mods, c.Between mod ∧ mod.name = b := by
  simp [modnames, and_assoc]

/-- What is to be crossed off of a mod is what it requires. -/
theorem mem_needs (h : (c.m_unsatisfied_mods.map ModSpec.name).Nodup)
    (hmod : mod ∈ c.m_unsatisfied_mods) (hbetween : c.Between mod) :
    b ∈ c.needs mod ↔ c.Requires mod.name b := by
  have hopt : b ∈ c.modnames → b ≠ c.m_first_mod := by
    intro hb
    obtain ⟨mod', -, hbetween', rfl⟩ := mem_modnames.1 hb
    exact hbetween'.1
  simp only [needs, Finset.mem_erase, Finset.mem_union, Finset.mem_filter, List.contains_eq_mem,
    decide_eq_true_eq]
  constructor
  · rintro ⟨hne, hb | hb⟩
    · exact .inl ⟨mod, hmod, rfl, hb, hne⟩
    · exact .inr ⟨mod, hmod, ⟨rfl, hbetween.2⟩, hb⟩
  · rintro (⟨mod', hmod', hname, hb, hne⟩ | ⟨mod', hmod', ⟨hname, -⟩, hb, hpresent⟩)
    · rw [eq_of_name h hmod' hmod hname] at hb
      exact ⟨hne, .inl hb⟩
    · rw [eq_of_name h hmod' hmod hname] at hb
      exact ⟨hopt hpresent, .inr ⟨hb, hpresent⟩⟩

theorem mem_lastNeeds (h : (c.m_unsatisfied_mods.map ModSpec.name).Nodup)
    (hmod : c.last_mod_spec = some mod) : b ∈ c.lastNeeds mod ↔ c.Requires mod.name b := by
  obtain ⟨hmem, -, hlast⟩ := (last_mod_spec_iff h).1 hmod
  rw [lastNeeds, Finset.mem_erase]
  constructor
  · rintro ⟨hne, hb⟩
    exact .inl ⟨mod, hmem, rfl, hb, hne⟩
  · rintro (⟨mod', hmod', hname, hb, hne⟩ | ⟨mod', -, ⟨-, hne⟩, -⟩)
    · rw [eq_of_name h hmod' hmem hname] at hb
      exact ⟨hne, hb⟩
    · exact absurd hlast hne

/-- The first mod requires nothing, or it is an error. -/
theorem not_requires_first (h : (c.m_unsatisfied_mods.map ModSpec.name).Nodup)
    (hcheck : c.checkFirstLast = .ok ()) (hmod : c.first_mod_spec = some mod) :
    ¬c.Requires mod.name b := by
  unfold checkFirstLast at hcheck
  split_ifs at hcheck with _ _ hdepends
  rw [hmod] at hdepends
  simp only [Option.any_some, ne_eq, decide_eq_true_eq, not_or, not_not] at hdepends
  obtain ⟨hmem, -⟩ := (first_mod_spec_iff h).1 hmod
  rintro (⟨mod', hmod', hname, hb, -⟩ | ⟨mod', hmod', ⟨hname, -⟩, hb, -⟩)
  · rw [eq_of_name h hmod' hmem hname, hdepends.1] at hb
    simp at hb
  · rw [eq_of_name h hmod' hmem hname, hdepends.2] at hb
    simp at hb

/-! ## The split -/

def withNeeds (c : ModConfiguration) (mod : ModSpec) : ModSpec :=
  { mod with unsatisfied_depends := c.needs mod }

theorem split_ok (hmods : s.last.isSome = true → ∀ mod ∈ mods, c.Between mod →
    c.m_last_mod ∉ c.needs mod) :
    mods.foldlM c.splitMod s = .ok { s with
      satisfied := (((mods.filter (c.Between ·)).map c.withNeeds).filter
        (·.unsatisfied_depends = ∅)).reverse ++ s.satisfied
      unsatisfied := s.unsatisfied ++ ((mods.filter (c.Between ·)).map c.withNeeds).filter
        (·.unsatisfied_depends ≠ ∅) } := by
  induction mods generalizing s with
  | nil =>
    simp
    rfl
  | cons mod mods ih =>
    rw [List.foldlM_cons]
    by_cases hbetween : c.Between mod
    · have hlast : ¬(s.last.isSome = true ∧ c.m_last_mod ∈ c.needs mod) := fun h =>
        hmods h.1 mod List.mem_cons_self hbetween h.2
      have hrest := fun h mod' hmod' => hmods h mod' (List.mem_cons_of_mem _ hmod')
      by_cases hempty : c.needs mod = ∅
      · have hstep : c.splitMod s mod =
            .ok { s with satisfied := c.withNeeds mod :: s.satisfied } := by
          unfold splitMod
          rw [if_pos hbetween]
          exact (if_neg hlast).trans (if_pos hempty)
        rw [hstep]
        refine (ih (s := { s with satisfied := c.withNeeds mod :: s.satisfied }) hrest).trans ?_
        simp [hbetween, withNeeds, hempty]
      · have hstep : c.splitMod s mod =
            .ok { s with unsatisfied := s.unsatisfied ++ [c.withNeeds mod] } := by
          unfold splitMod
          rw [if_pos hbetween]
          exact (if_neg hlast).trans (if_neg hempty)
        rw [hstep]
        refine (ih (s := { s with unsatisfied := s.unsatisfied ++ [c.withNeeds mod] })
          hrest).trans ?_
        simp [hbetween, withNeeds, hempty]
    · have hstep : c.splitMod s mod = .ok s := if_neg hbetween
      rw [hstep]
      refine (ih fun h mod' hmod' => hmods h mod' (List.mem_cons_of_mem _ hmod')).trans ?_
      simp [hbetween]

theorem split_last {s' : Resolving} (h : c.splitMod s mod = .ok s') : s'.last = s.last := by
  unfold splitMod at h
  dsimp only at h
  split_ifs at h <;> cases h <;> rfl

theorem split_error (hlast : s.last.isSome = true)
    (hmods : ∃ mod ∈ mods, c.Between mod ∧ c.m_last_mod ∈ c.needs mod) :
    ∃ e, mods.foldlM c.splitMod s = .error e := by
  induction mods generalizing s with
  | nil => simp at hmods
  | cons mod mods ih =>
    rw [List.foldlM_cons]
    cases hstep : c.splitMod s mod with
    | error e => exact ⟨e, rfl⟩
    | ok s' =>
      obtain ⟨mod', hmod', hbetween, hmem⟩ := hmods
      rcases List.mem_cons.1 hmod' with rfl | hmod'
      · simp [splitMod, hbetween, hlast, hmem] at hstep
      · exact ih (by rwa [split_last hstep]) ⟨mod', hmod', hbetween, hmem⟩

/-! ## The loop -/

/-- What is to be crossed off of a mod is what it requires of what is not sorted. -/
def Tracks (c : ModConfiguration) (done : List ByteString) (mod : ModSpec) : Prop :=
  ∀ b, b ∈ mod.unsatisfied_depends ↔ c.Requires mod.name b ∧ b ∉ done

def middle (c : ModConfiguration) : List ByteString :=
  c.first_mod_spec.toList.map ModSpec.name ++ c.modnames

/-- The invariant of the loop over `satisfied`. -/
structure Sorting (c : ModConfiguration) (s : Resolving) : Prop where
  ordered : Ordered c.Requires (s.sorted.map ModSpec.name)
  ready : ∀ mod ∈ s.satisfied, ∀ b, c.Requires mod.name b → b ∈ s.sorted.map ModSpec.name
  waiting : ∀ mod ∈ s.unsatisfied, mod.unsatisfied_depends ≠ ∅ ∧
    c.Tracks (s.sorted.map ModSpec.name) mod
  last : ∀ mod ∈ s.last, c.Tracks (s.sorted.map ModSpec.name) mod
  all : (s.sorted.map ModSpec.name ++ s.satisfied.map ModSpec.name ++
    s.unsatisfied.map ModSpec.name).Perm c.middle

theorem Tracks.crossOff {done : List ByteString} (h : c.Tracks done mod) (name : ByteString) :
    c.Tracks (done ++ [name]) (ModConfiguration.crossOff name mod) := by
  intro b
  change b ∈ mod.unsatisfied_depends.erase name ↔ c.Requires mod.name b ∧ b ∉ done ++ [name]
  rw [Finset.mem_erase, h b, List.mem_append, List.mem_singleton]
  tauto

theorem map_name_crossOff (name : ByteString) (mods : List ModSpec) :
    (mods.map (crossOff name)).map ModSpec.name = mods.map ModSpec.name := by
  rw [List.map_map]
  rfl

theorem Sorting.release {satisfied : List ModSpec} (h : c.Sorting s)
    (hs : s.satisfied = mod :: satisfied) : c.Sorting (release s mod satisfied) := by
  have hcrossed : ∀ crossed ∈ s.unsatisfied.map (crossOff mod.name),
      c.Tracks (s.sorted.map ModSpec.name ++ [mod.name]) crossed := by
    intro crossed hcrossed
    obtain ⟨waiting, hwaiting, rfl⟩ := List.mem_map.1 hcrossed
    exact (h.waiting waiting hwaiting).2.crossOff mod.name
  have hsorted : (ModConfiguration.release s mod satisfied).sorted.map ModSpec.name =
      s.sorted.map ModSpec.name ++ [mod.name] := by simp [ModConfiguration.release]
  refine ⟨?_, fun ready hready b hb => ?_, fun waiting hwaiting => ?_, fun last hlast => ?_, ?_⟩
  · rw [hsorted]
    exact h.ordered.snoc (h.ready mod (by simp [hs]))
  · rw [hsorted]
    rcases List.mem_append.1 hready with hfree | hold
    · -- nothing is left to cross off
      obtain ⟨hmem, hempty⟩ := List.mem_filter.1 (List.mem_reverse.1 hfree)
      by_contra hout
      have := (hcrossed ready hmem b).2 ⟨hb, hout⟩
      rw [of_decide_eq_true hempty] at this
      simp at this
    · exact List.mem_append_left _ (h.ready ready (by simp [hs, hold]) b hb)
  · rw [hsorted]
    obtain ⟨hmem, hne⟩ := List.mem_filter.1 hwaiting
    exact ⟨of_decide_eq_true hne, hcrossed waiting hmem⟩
  · rw [hsorted]
    obtain ⟨old, hold, rfl⟩ := Option.mem_map.1 hlast
    exact (h.last old hold).crossOff mod.name
  · rw [hsorted]
    have hparts := (List.filter_append_perm (fun mod : ModSpec => mod.unsatisfied_depends = ∅)
      (s.unsatisfied.map (crossOff mod.name))).map ModSpec.name
    rw [map_name_crossOff, List.map_append] at hparts
    refine List.Perm.trans ?_ h.all
    rw [hs]
    simp only [ModConfiguration.release, List.map_append, List.map_cons, List.map_reverse]
    calc _ = s.sorted.map ModSpec.name ++ mod.name ::
          ((((s.unsatisfied.map (crossOff mod.name)).filter
              (·.unsatisfied_depends = ∅)).map ModSpec.name).reverse ++
            satisfied.map ModSpec.name ++
              ((s.unsatisfied.map (crossOff mod.name)).filter
                (·.unsatisfied_depends ≠ ∅)).map ModSpec.name) := by simp
      _ |>.Perm (s.sorted.map ModSpec.name ++ mod.name ::
          (satisfied.map ModSpec.name ++ s.unsatisfied.map ModSpec.name)) := by
        refine List.Perm.append_left _ (List.Perm.cons _ ?_)
        refine ((List.perm_append_comm.append_right _).trans ?_)
        rw [List.append_assoc]
        refine List.Perm.append_left _ ?_
        refine ((List.reverse_perm _).append_right _).trans ?_
        simpa using hparts
      _ |>.Perm _ := by simp

theorem length_release (s : Resolving) (mod : ModSpec) (satisfied : List ModSpec) :
    (release s mod satisfied).satisfied.length + (release s mod satisfied).unsatisfied.length =
      satisfied.length + s.unsatisfied.length := by
  have hparts := (List.filter_append_perm (fun mod : ModSpec => mod.unsatisfied_depends = ∅)
    (s.unsatisfied.map (crossOff mod.name))).length_eq
  simp only [List.length_append, List.length_map] at hparts
  have hne : ∀ l : List ModSpec, l.filter (fun mod => ¬mod.unsatisfied_depends = ∅) =
      l.filter (fun mod => !decide (mod.unsatisfied_depends = ∅)) := fun l => by simp
  simp only [release, List.length_append, List.length_reverse, ne_eq, hne]
  omega

/-- What is left of the loop: nothing is satisfied any more, and what was sorted stays in front. -/
structure Drained (c : ModConfiguration) (s s' : Resolving) : Prop where
  sorting : c.Sorting s'
  empty : s'.satisfied = []
  front : s.sorted <+: s'.sorted
  last : s'.last.map ModSpec.name = s.last.map ModSpec.name

theorem Sorting.releaseAll (h : c.Sorting s) {n : ℕ}
    (hn : s.satisfied.length + s.unsatisfied.length ≤ n) :
    c.Drained s (ModConfiguration.releaseAll n s) := by
  induction n generalizing s with
  | zero =>
    have hempty : s.satisfied.length = 0 := by omega
    exact ⟨h, List.length_eq_zero_iff.1 hempty, List.prefix_rfl, rfl⟩
  | succ n ih =>
    cases hs : s.satisfied with
    | nil =>
      have hend : ModConfiguration.releaseAll (n + 1) s = s := by
        simp only [ModConfiguration.releaseAll, hs]
      rw [hend]
      exact ⟨h, hs, List.prefix_rfl, rfl⟩
    | cons mod satisfied =>
      have hturn : ModConfiguration.releaseAll (n + 1) s =
          ModConfiguration.releaseAll n (ModConfiguration.release s mod satisfied) := by
        simp only [ModConfiguration.releaseAll, hs]
      have hlength := length_release s mod satisfied
      rw [hs, List.length_cons] at hn
      have hrest := ih (h.release hs) (by omega)
      rw [hturn]
      refine ⟨hrest.sorting, hrest.empty, (List.prefix_append _ _).trans hrest.front, ?_⟩
      rw [hrest.last]
      cases hlast : s.last <;> simp [ModConfiguration.release, hlast, crossOff]

/-! ## The whole function -/

/-- What the loop over `satisfied` starts with. -/
def splitted (c : ModConfiguration) (shuffled : List ModSpec) : Resolving where
  sorted := c.first_mod_spec.toList
  satisfied := (((shuffled.filter (c.Between ·)).map c.withNeeds).filter
    (·.unsatisfied_depends = ∅)).reverse
  unsatisfied := ((shuffled.filter (c.Between ·)).map c.withNeeds).filter
    (·.unsatisfied_depends ≠ ∅)
  last := c.last_mod_spec.map fun mod => { mod with unsatisfied_depends := c.lastNeeds mod }

theorem map_name_withNeeds (mods : List ModSpec) :
    (mods.map c.withNeeds).map ModSpec.name = mods.map ModSpec.name := by
  rw [List.map_map]
  rfl

theorem perm_modnames {shuffled : List ModSpec} (h : shuffled.Perm c.m_unsatisfied_mods) :
    ((shuffled.filter (c.Between ·)).map ModSpec.name).Perm c.modnames :=
  (h.filter _).map _

theorem not_mem_modnames_first : c.m_first_mod ∉ c.modnames := by
  rw [mem_modnames]
  rintro ⟨mod, -, hbetween, hname⟩
  exact hbetween.1 hname

/-- Only the first mod is sorted: it is no dependency. -/
theorem not_requires_of_first (h : (c.m_unsatisfied_mods.map ModSpec.name).Nodup)
    (hmod : c.first_mod_spec = some mod) : ¬c.Requires name mod.name := by
  obtain ⟨-, hfirst⟩ := (first_mod_spec_iff h).1 hmod
  rw [hfirst]
  rintro (⟨_, -, -, -, hne⟩ | ⟨_, -, -, -, hpresent⟩)
  · exact hne rfl
  · exact not_mem_modnames_first hpresent

theorem sorting_splitted {shuffled : List ModSpec}
    (h : (c.m_unsatisfied_mods.map ModSpec.name).Nodup) (hcheck : c.checkFirstLast = .ok ())
    (hshuffled : shuffled.Perm c.m_unsatisfied_mods) : c.Sorting (c.splitted shuffled) := by
  have hneeds : ∀ mod ∈ (shuffled.filter (c.Between ·)).map c.withNeeds, ∀ b,
      b ∈ mod.unsatisfied_depends ↔ c.Requires mod.name b := by
    intro mod hmod b
    obtain ⟨old, hold, rfl⟩ := List.mem_map.1 hmod
    obtain ⟨hmem, hbetween⟩ := List.mem_filter.1 hold
    exact mem_needs h (hshuffled.mem_iff.1 hmem) (of_decide_eq_true hbetween)
  have hfirst : ∀ a b, c.Requires a b → b ∉ (c.splitted shuffled).sorted.map ModSpec.name := by
    intro a b hab hb
    obtain ⟨mod, hmod, rfl⟩ := List.mem_map.1 hb
    exact not_requires_of_first h (Option.mem_toList.1 hmod) hab
  refine ⟨?_, fun mod hmod b hb => ?_, fun mod hmod => ?_, fun last hlast b => ?_, ?_⟩
  · unfold splitted
    cases hmod : c.first_mod_spec with
    | none => exact .nil
    | some mod =>
      exact Ordered.nil.snoc fun b hb => absurd hb (not_requires_first h hcheck hmod)
  · obtain ⟨hmem, hempty⟩ := List.mem_filter.1 (List.mem_reverse.1 hmod)
    have hb' := (hneeds mod hmem b).2 hb
    rw [of_decide_eq_true hempty] at hb'
    simp at hb'
  · obtain ⟨hmem, hne⟩ := List.mem_filter.1 hmod
    refine ⟨of_decide_eq_true hne, fun b => ?_⟩
    rw [hneeds mod hmem b]
    exact ⟨fun hb => ⟨hb, hfirst _ _ hb⟩, And.left⟩
  · obtain ⟨old, hold, rfl⟩ := Option.mem_map.1 hlast
    change b ∈ c.lastNeeds old ↔ c.Requires old.name b ∧ _
    rw [mem_lastNeeds h hold]
    exact ⟨fun hb => ⟨hb, hfirst _ _ hb⟩, And.left⟩
  · have hparts := (List.filter_append_perm (fun mod : ModSpec => mod.unsatisfied_depends = ∅)
      ((shuffled.filter (c.Between ·)).map c.withNeeds)).map ModSpec.name
    rw [map_name_withNeeds, List.map_append] at hparts
    have hall := hparts.trans (perm_modnames hshuffled)
    simp only [splitted, middle, List.append_assoc, List.map_reverse]
    refine List.Perm.append_left _ (((List.reverse_perm _).append_right _).trans ?_)
    simpa using hall

theorem nodup_middle (h : (c.m_unsatisfied_mods.map ModSpec.name).Nodup) : c.middle.Nodup := by
  have hnames : c.modnames.Nodup := h.sublist (List.filter_sublist.map _)
  unfold middle
  cases hmod : c.first_mod_spec with
  | none => simpa using hnames
  | some mod =>
    rw [Option.toList_some, List.map_singleton, List.singleton_append, List.nodup_cons]
    refine ⟨?_, hnames⟩
    rw [((first_mod_spec_iff h).1 hmod).2]
    exact not_mem_modnames_first

theorem mem_middle (h : (c.m_unsatisfied_mods.map ModSpec.name).Nodup) : name ∈ c.middle ↔
    ∃ mod ∈ c.m_unsatisfied_mods, (mod.name = c.m_first_mod ∨ c.Between mod) ∧ mod.name = name := by
  simp only [middle, List.mem_append, List.mem_map, Option.mem_toList, first_mod_spec_iff h,
    mem_modnames]
  constructor
  · rintro (⟨mod, ⟨hmem, hfirst⟩, hname⟩ | ⟨mod, hmem, hbetween, hname⟩)
    · exact ⟨mod, hmem, .inl hfirst, hname⟩
    · exact ⟨mod, hmem, .inr hbetween, hname⟩
  · rintro ⟨mod, hmem, hfirst | hbetween, hname⟩
    · exact .inl ⟨mod, ⟨hmem, hfirst⟩, hname⟩
    · exact .inr ⟨mod, hmem, hbetween, hname⟩

theorem not_mem_middle_last (h : (c.m_unsatisfied_mods.map ModSpec.name).Nodup)
    (hmod : c.last_mod_spec = some mod) : mod.name ∉ c.middle := by
  obtain ⟨-, hfirst, hlast⟩ := (last_mod_spec_iff h).1 hmod
  rw [mem_middle h]
  rintro ⟨mod', -, hfirst' | hbetween, hname⟩
  · exact hfirst (hname.symm.trans hfirst')
  · exact hbetween.2 (hname.trans hlast)

def ready (s : Resolving) : List ModSpec := s.last.toList.filter (·.unsatisfied_depends = ∅)

def stuck (s : Resolving) : List ModSpec := s.last.toList.filter (·.unsatisfied_depends ≠ ∅)

theorem resolveDependencies_ok (hc : c.Accepted) (hnew : c.m_sorted_mods = [])
    {shuffled : List ModSpec} (hshuffled : shuffled.Perm c.m_unsatisfied_mods) :
    c.resolveDependencies shuffled =
      let s := releaseAll shuffled.length (c.splitted shuffled)
      .ok { c with
        m_sorted_mods := s.sorted ++ ready s
        m_unsatisfied_mods := s.unsatisfied ++ stuck s } := by
  have hdepends : ∀ s : Resolving, s.last = c.last_mod_spec → s.last.isSome = true →
      ∀ mod ∈ shuffled, c.Between mod → c.m_last_mod ∉ c.needs mod :=
    fun s hs hlast mod hmod => hc.2 (hs ▸ hlast) mod (hshuffled.mem_iff.1 hmod)
  have hsplit := split_ok (hdepends
    { sorted := c.m_sorted_mods ++ c.first_mod_spec.toList, last := c.last_mod_spec } rfl)
  unfold resolveDependencies
  rw [hc.1, hsplit, hnew]
  simp only [List.append_nil, List.nil_append]
  rfl

theorem resolveDependencies_error (hc : ¬c.Accepted) {shuffled : List ModSpec}
    (hshuffled : shuffled.Perm c.m_unsatisfied_mods) :
    ∃ e, c.resolveDependencies shuffled = .error e := by
  unfold resolveDependencies
  cases hcheck : c.checkFirstLast with
  | error e => exact ⟨e, rfl⟩
  | ok _ =>
    have hdepends : ¬(c.last_mod_spec.isSome = true → ∀ mod ∈ c.m_unsatisfied_mods,
        c.Between mod → c.m_last_mod ∉ c.needs mod) := fun h => hc ⟨hcheck, h⟩
    push Not at hdepends
    obtain ⟨hlast, mod, hmod, hbetween, hmem⟩ := hdepends
    have hdepends' : ∃ mod ∈ shuffled, c.Between mod ∧ c.m_last_mod ∈ c.needs mod :=
      ⟨mod, hshuffled.mem_iff.2 hmod, hbetween, hmem⟩
    obtain ⟨e, he⟩ := split_error
      (s := { sorted := c.m_sorted_mods ++ c.first_mod_spec.toList, last := c.last_mod_spec })
      hlast hdepends'
    refine ⟨e, ?_⟩
    rw [he]
    rfl

theorem ready_cases (s : Resolving) :
    (ready s = [] ∧ ∀ last ∈ s.last, last.unsatisfied_depends ≠ ∅) ∨
      ∃ last ∈ s.last, ready s = [last] ∧ last.unsatisfied_depends = ∅ := by
  unfold ready
  cases hlast : s.last with
  | none => exact .inl ⟨rfl, fun _ h => absurd h (by simp)⟩
  | some last =>
    by_cases hempty : last.unsatisfied_depends = ∅
    · exact .inr ⟨last, rfl, by simp [hempty], hempty⟩
    · refine .inl ⟨by simp [hempty], fun last' hlast' => ?_⟩
      rwa [← Option.some.inj hlast']

/-- The end of the loop over `satisfied`, in a configuration that is accepted. -/
structure Done (c : ModConfiguration) (s : Resolving) : Prop where
  nodup : (c.m_unsatisfied_mods.map ModSpec.name).Nodup
  accepted : c.Accepted
  sorting : c.Sorting s
  empty : s.satisfied = []
  front : c.first_mod_spec.toList <+: s.sorted
  last : s.last.map ModSpec.name = c.last_mod_spec.map ModSpec.name

namespace Done

theorem perm_middle (h : c.Done s) :
    (s.sorted.map ModSpec.name ++ s.unsatisfied.map ModSpec.name).Perm c.middle := by
  have hall := h.sorting.all
  rwa [h.empty, List.map_nil, List.append_nil] at hall

theorem mem_middle_of_sorted (h : c.Done s) (hname : name ∈ s.sorted.map ModSpec.name) :
    name ∈ c.middle :=
  h.perm_middle.mem_iff.1 (List.mem_append_left _ hname)

theorem last_mod (h : c.Done s) (hmod : mod ∈ s.last) :
    ∃ last, c.last_mod_spec = some last ∧ mod.name = last.name := by
  have hname := h.last
  rw [hmod, Option.map_some] at hname
  obtain ⟨last, hlast, hname⟩ := Option.map_eq_some_iff.1 hname.symm
  exact ⟨last, hlast, hname.symm⟩

theorem not_sorted_last (h : c.Done s) (hmod : mod ∈ s.last) :
    mod.name ∉ s.sorted.map ModSpec.name := by
  obtain ⟨last, hlast, hname⟩ := h.last_mod hmod
  rw [hname]
  exact fun hmem => not_mem_middle_last h.nodup hlast (h.mem_middle_of_sorted hmem)

theorem nodup_sorted (h : c.Done s) : ((s.sorted ++ ready s).map ModSpec.name).Nodup := by
  have hnodup : (s.sorted.map ModSpec.name).Nodup :=
    (List.nodup_append.1 (h.perm_middle.nodup_iff.2 (nodup_middle h.nodup))).1
  rcases ready_cases s with ⟨hready, -⟩ | ⟨last, hlast, hready, -⟩
  · rwa [hready, List.append_nil]
  · rw [hready, List.map_append, List.nodup_append]
    refine ⟨hnodup, List.nodup_singleton _, fun a ha b hb => ?_⟩
    rw [List.map_singleton, List.mem_singleton] at hb
    rintro rfl
    exact h.not_sorted_last hlast (hb ▸ ha)

theorem ordered (h : c.Done s) : Ordered c.Requires ((s.sorted ++ ready s).map ModSpec.name) := by
  rcases ready_cases s with ⟨hready, -⟩ | ⟨last, hlast, hready, hempty⟩
  · rw [hready, List.append_nil]
    exact h.sorting.ordered
  · rw [hready, List.map_append]
    refine h.sorting.ordered.snoc fun b hb => ?_
    by_contra hout
    have hmem := (h.sorting.last last hlast b).2 ⟨hb, hout⟩
    simp [hempty] at hmem

theorem names_sorted (h : c.Done s) (hname : name ∈ (s.sorted ++ ready s).map ModSpec.name) :
    name ∈ c.names := by
  rw [List.map_append, List.mem_append] at hname
  rcases hname with hname | hname
  · obtain ⟨mod, hmod, -, hname⟩ := (mem_middle h.nodup).1 (h.mem_middle_of_sorted hname)
    exact ⟨mod, hmod, hname⟩
  · obtain ⟨last, hlast, rfl⟩ := List.mem_map.1 hname
    obtain ⟨mod, hmod, hname⟩ := h.last_mod (Option.mem_toList.1 (List.mem_filter.1 hlast).1)
    exact ⟨mod, ((last_mod_spec_iff h.nodup).1 hmod).1, hname.symm⟩

/-- A mod between that is left over requires another that is left over or missing. -/
theorem stuck_between (h : c.Done s) (hmod : mod ∈ s.unsatisfied) :
    ∃ b, c.Requires mod.name b ∧ b ∉ (s.sorted ++ ready s).map ModSpec.name := by
  obtain ⟨hne, htracks⟩ := h.sorting.waiting mod hmod
  obtain ⟨b, hb⟩ := Finset.nonempty_iff_ne_empty.2 hne
  obtain ⟨hrequires, hout⟩ := (htracks b).1 hb
  refine ⟨b, hrequires, ?_⟩
  rw [List.map_append, List.mem_append, not_or]
  refine ⟨hout, fun hready => ?_⟩
  -- it cannot be the last mod
  obtain ⟨last, hlast, rfl⟩ := List.mem_map.1 hready
  obtain ⟨spec, hspec, hname⟩ := h.last_mod (Option.mem_toList.1 (List.mem_filter.1 hlast).1)
  have hmiddle : mod.name ∈ c.middle :=
    h.perm_middle.mem_iff.1 (List.mem_append_right _ (List.mem_map_of_mem hmod))
  obtain ⟨mod', hmod', hfirst | hbetween, hname'⟩ := (mem_middle h.nodup).1 hmiddle
  · rw [← hname'] at hrequires
    exact not_requires_first h.nodup h.accepted.1 ((first_mod_spec_iff h.nodup).2 ⟨hmod', hfirst⟩)
      hrequires
  · refine h.accepted.2 (by rw [hspec]; rfl) mod' hmod' hbetween ?_
    rw [mem_needs h.nodup hmod' hbetween, hname', ← ((last_mod_spec_iff h.nodup).1 hspec).2.2,
      ← hname]
    exact hrequires

/-- Whatever is left over requires something that is left over or missing. -/
theorem stuck (h : c.Done s) (hname : name ∈ c.names)
    (hout : name ∉ (s.sorted ++ ready s).map ModSpec.name) :
    ∃ b, c.Requires name b ∧ b ∉ (s.sorted ++ ready s).map ModSpec.name := by
  by_cases hmiddle : name ∈ c.middle
  · have hmem := h.perm_middle.mem_iff.2 hmiddle
    rw [List.map_append, List.mem_append, not_or] at hout
    obtain ⟨mod, hmod, rfl⟩ := List.mem_map.1 ((List.mem_append.1 hmem).resolve_left hout.1)
    exact h.stuck_between hmod
  · obtain ⟨mod, hmod, rfl⟩ := hname
    have hspec : c.last_mod_spec = some mod := by
      rw [last_mod_spec_iff h.nodup]
      rw [mem_middle h.nodup] at hmiddle
      by_contra hnot
      refine hmiddle ⟨mod, hmod, ?_, rfl⟩
      by_cases hfirst : mod.name = c.m_first_mod
      · exact .inl hfirst
      · exact .inr ⟨hfirst, fun hlast => hnot ⟨hmod, hfirst, hlast⟩⟩
    have hlast := h.last
    rw [hspec, Option.map_some] at hlast
    obtain ⟨last, hlast, hname⟩ := Option.map_eq_some_iff.1 hlast
    rcases ready_cases s with ⟨hready, hne⟩ | ⟨last', hlast', hready, -⟩
    · obtain ⟨b, hb⟩ := Finset.nonempty_iff_ne_empty.2 (hne last hlast)
      obtain ⟨hrequires, hnew⟩ := (h.sorting.last last hlast b).1 hb
      rw [hname] at hrequires
      exact ⟨b, hrequires, by rwa [hready, List.append_nil]⟩
    · rw [hlast] at hlast'
      cases hlast'
      refine absurd ?_ hout
      rw [hready, List.map_append, ← hname]
      simp

/-- What is sorted is what is satisfiable. -/
theorem mem_sorted (h : c.Done s) :
    name ∈ (s.sorted ++ ready s).map ModSpec.name ↔ c.Satisfiable name := by
  have hfinite : c.names.Finite := by
    refine Set.Finite.subset (c.m_unsatisfied_mods.map ModSpec.name).toFinset.finite_toSet ?_
    rintro _ ⟨mod, hmod, rfl⟩
    simpa using ⟨mod, hmod, rfl⟩
  unfold Satisfiable
  rw [← grounded_iff hfinite]
  constructor
  · exact h.ordered.grounded (fun _ => h.names_sorted) name
  · exact Grounded.mem_of_stuck {name | name ∈ (s.sorted ++ ready s).map ModSpec.name}
      fun name hname hout => h.stuck hname hout

theorem resolved (h : c.Done s) : c.Resolved { c with
    m_sorted_mods := s.sorted ++ ready s
    m_unsatisfied_mods := s.unsatisfied ++ ModConfiguration.stuck s } where
  nodup := h.nodup_sorted
  mem _ := h.mem_sorted
  order l₁ mod l₂ hl b hb := by
    have hnames : (s.sorted ++ ready s).map ModSpec.name =
        l₁.map ModSpec.name ++ mod.name :: l₂.map ModSpec.name := by
      rw [← List.map_cons, ← List.map_append]
      exact congrArg _ hl
    exact h.ordered.split hnames b hb
  first mod hmod := by
    obtain ⟨rest, hrest⟩ := h.front
    rw [Option.mem_def] at hmod
    simp [← hrest, hmod]
  last mod hmod hsorted := by
    rcases ready_cases s with ⟨hready, -⟩ | ⟨last, hlast, hready, -⟩
    · simp only [hready, List.append_nil] at hsorted
      exact absurd (h.mem_middle_of_sorted hsorted) (not_mem_middle_last h.nodup hmod)
    · obtain ⟨spec, hspec, hname⟩ := h.last_mod hlast
      rw [hmod] at hspec
      cases hspec
      simp [hready, hname]

end Done

theorem length_splitted (c : ModConfiguration) (shuffled : List ModSpec) :
    (c.splitted shuffled).satisfied.length + (c.splitted shuffled).unsatisfied.length ≤
      shuffled.length := by
  have hparts := (List.filter_append_perm (fun mod : ModSpec => mod.unsatisfied_depends = ∅)
    ((shuffled.filter (c.Between ·)).map c.withNeeds)).length_eq
  have hle := List.length_filter_le (fun mod => c.Between mod) shuffled
  have hne : ∀ l : List ModSpec, l.filter (fun mod => ¬mod.unsatisfied_depends = ∅) =
      l.filter (fun mod => !decide (mod.unsatisfied_depends = ∅)) := fun l => by simp
  simp only [List.length_append, List.length_map] at hparts
  simp only [splitted, List.length_reverse, ne_eq, hne]
  omega

/-- Configurations that are accepted are resolved. -/
theorem resolveDependencies_resolved (h : (c.m_unsatisfied_mods.map ModSpec.name).Nodup)
    (hnew : c.m_sorted_mods = []) {shuffled : List ModSpec}
    (hshuffled : shuffled.Perm c.m_unsatisfied_mods) (hc : c.Accepted) :
    ∃ c', c.resolveDependencies shuffled = .ok c' ∧ c.Resolved c' := by
  refine ⟨_, resolveDependencies_ok hc hnew hshuffled, Done.resolved ?_⟩
  have hdrained := (sorting_splitted h hc.1 hshuffled).releaseAll (c.length_splitted shuffled)
  refine ⟨h, hc, hdrained.sorting, hdrained.empty, hdrained.front, ?_⟩
  rw [hdrained.last, splitted, Option.map_map]
  rfl

/-! ## The order of adding -/

/-- The configuration with the mods of all those calls to `addMods`, which neither read nor change
the names of the first and the last mod. -/
def added (first last : ByteString) (batches : List (List ModSpec)) : ModConfiguration :=
  batches.foldl addMods { m_first_mod := first, m_last_mod := last }

def frame (c : ModConfiguration) : ByteString × ByteString × List ModSpec :=
  (c.m_first_mod, c.m_last_mod, c.m_sorted_mods)

theorem frame_addMod (c : ModConfiguration) (seen : Finset ByteString) (mod : ModSpec) :
    (addMod c seen mod).frame = c.frame := by
  unfold addMod
  split_ifs <;> rfl

theorem frame_addModsOf (c : ModConfiguration) (mods : List ModSpec) :
    (c.addModsOf mods).frame = c.frame := by
  unfold addModsOf
  refine List.foldlRecOn (motive := fun (s : ModConfiguration × Finset ByteString) =>
    s.1.frame = c.frame) mods _ rfl ?_
  exact fun s hs mod _ => (frame_addMod s.1 s.2 mod).trans hs

theorem frame_added (first last : ByteString) (batches : List (List ModSpec)) :
    (added first last batches).frame = (first, last, []) := by
  unfold added
  refine List.foldlRecOn (motive := fun (c : ModConfiguration) => c.frame = (first, last, []))
    batches _ rfl ?_
  exact fun c hc mods _ => (frame_addModsOf _ _).trans ((frame_addModsOf _ _).trans hc)

theorem nodup_added (first last : ByteString) (batches : List (List ModSpec)) :
    ((added first last batches).m_unsatisfied_mods.map ModSpec.name).Nodup := by
  unfold added
  refine List.foldlRecOn (motive := fun (c : ModConfiguration) =>
    (c.m_unsatisfied_mods.map ModSpec.name).Nodup) batches _ List.nodup_nil ?_
  exact fun c hc mods _ => nodup_addMods hc mods

theorem addMod_new {seen : Finset ByteString}
    (h : mod.name ∉ c.m_unsatisfied_mods.map ModSpec.name) :
    addMod c seen mod = { c with m_unsatisfied_mods := c.m_unsatisfied_mods ++ [mod] } :=
  if_neg (by rwa [List.contains_eq_mem, decide_eq_true_eq])

theorem addModsOf_new (h : ((c.m_unsatisfied_mods ++ mods).map ModSpec.name).Nodup) :
    (c.addModsOf mods).m_unsatisfied_mods = c.m_unsatisfied_mods ++ mods := by
  unfold addModsOf
  generalize (∅ : Finset ByteString) = seen
  induction mods generalizing c seen with
  | nil => simp
  | cons mod mods ih =>
    have hnew : mod.name ∉ c.m_unsatisfied_mods.map ModSpec.name := by
      rw [List.map_append, List.map_cons, List.nodup_append] at h
      exact fun hmem => h.2.2 _ hmem _ List.mem_cons_self rfl
    rw [List.foldl_cons, addMod_new hnew]
    rw [List.append_cons] at h
    exact (ih h _).trans (List.append_cons _ _ _).symm

theorem addMods_new (h : ((c.m_unsatisfied_mods ++ mods).map ModSpec.name).Nodup) :
    (c.addMods mods).m_unsatisfied_mods.Perm (c.m_unsatisfied_mods ++ mods) := by
  have hparts : (mods.filter (fun mod => 0 < mod.modpack_depth) ++
      mods.filter fun mod => ¬0 < mod.modpack_depth).Perm mods := by
    simpa only [decide_not] using
      List.filter_append_perm (fun mod : ModSpec => 0 < mod.modpack_depth) mods
  have hall := hparts.append_left c.m_unsatisfied_mods
  rw [← List.append_assoc] at hall
  have hnodup := (hall.map ModSpec.name).nodup_iff.2 h
  have hpacks := addModsOf_new (c := c) (by
    rw [List.map_append] at hnodup
    exact (List.nodup_append.1 hnodup).1)
  unfold addMods
  rw [addModsOf_new (by rwa [hpacks]), hpacks]
  exact hall

theorem perm_added {batches : List (List ModSpec)} (first last : ByteString)
    (h : (batches.flatten.map ModSpec.name).Nodup) :
    (added first last batches).m_unsatisfied_mods.Perm batches.flatten := by
  have hall : ∀ (batches : List (List ModSpec)) (c : ModConfiguration),
      ((c.m_unsatisfied_mods ++ batches.flatten).map ModSpec.name).Nodup →
        (batches.foldl addMods c).m_unsatisfied_mods.Perm
          (c.m_unsatisfied_mods ++ batches.flatten) := by
    intro batches
    induction batches with
    | nil => simp
    | cons mods batches ih =>
      intro c hnodup
      rw [List.flatten_cons, ← List.append_assoc] at hnodup ⊢
      have hfirst : ((c.m_unsatisfied_mods ++ mods).map ModSpec.name).Nodup := by
        rw [List.map_append] at hnodup
        exact (List.nodup_append.1 hnodup).1
      have hmods := (addMods_new hfirst).append_right batches.flatten
      exact (ih _ ((hmods.map ModSpec.name).nodup_iff.2 hnodup)).trans hmods
  exact hall batches _ h

structure Alike (c₁ c₂ : ModConfiguration) : Prop where
  frame : c₁.frame = c₂.frame
  mods : c₁.m_unsatisfied_mods.Perm c₂.m_unsatisfied_mods
  nodup : (c₁.m_unsatisfied_mods.map ModSpec.name).Nodup

namespace Alike

variable {c₁ c₂ : ModConfiguration}

theorem symm (h : c₁.Alike c₂) : c₂.Alike c₁ :=
  ⟨h.frame.symm, h.mods.symm, (h.mods.map _).nodup_iff.1 h.nodup⟩

theorem first_mod (h : c₁.Alike c₂) : c₁.m_first_mod = c₂.m_first_mod := congrArg Prod.fst h.frame

theorem last_mod (h : c₁.Alike c₂) : c₁.m_last_mod = c₂.m_last_mod :=
  congrArg (fun frame => frame.2.1) h.frame

theorem first_mod_spec (h : c₁.Alike c₂) : c₁.first_mod_spec = c₂.first_mod_spec := by
  ext mod
  rw [first_mod_spec_iff h.nodup, first_mod_spec_iff h.symm.nodup, h.mods.mem_iff, h.first_mod]

theorem last_mod_spec (h : c₁.Alike c₂) : c₁.last_mod_spec = c₂.last_mod_spec := by
  ext mod
  rw [last_mod_spec_iff h.nodup, last_mod_spec_iff h.symm.nodup, h.mods.mem_iff, h.first_mod,
    h.last_mod]

theorem between (h : c₁.Alike c₂) : c₁.Between = c₂.Between := by
  unfold Between
  rw [h.first_mod, h.last_mod]

theorem mem_modnames (h : c₁.Alike c₂) (name : ByteString) :
    name ∈ c₁.modnames ↔ name ∈ c₂.modnames := by
  simp only [ModConfiguration.mem_modnames, h.mods.mem_iff, h.between]

theorem requires (h : c₁.Alike c₂) : c₁.Requires = c₂.Requires := by
  funext a b
  simp only [Requires, Depends, h.mods.mem_iff, h.first_mod, h.last_mod, h.mem_modnames]

theorem names (h : c₁.Alike c₂) : c₁.names = c₂.names := by
  simp only [ModConfiguration.names, h.mods.mem_iff]

theorem satisfiable (h : c₁.Alike c₂) : c₁.Satisfiable = c₂.Satisfiable := by
  funext name
  simp only [Satisfiable, h.requires, h.names]

theorem accepted (h : c₁.Alike c₂) (hc : c₁.Accepted) : c₂.Accepted := by
  obtain ⟨hcheck, hdepends⟩ := hc
  refine ⟨?_, fun hlast mod hmod hbetween => ?_⟩
  · unfold checkFirstLast at hcheck ⊢
    rwa [← h.first_mod, ← h.last_mod, ← h.first_mod_spec, ← h.last_mod_spec]
  · have hmod' := h.mods.mem_iff.2 hmod
    have hbetween' : c₁.Between mod := by rwa [h.between]
    have hneeds := hdepends (by rwa [h.last_mod_spec]) mod hmod' hbetween'
    rwa [mem_needs h.nodup hmod' hbetween', h.requires, h.last_mod,
      ← mem_needs h.symm.nodup hmod hbetween] at hneeds

end Alike

def loaded : Except ModError ModConfiguration → Option (Finset ByteString)
  | .error _ => none
  | .ok c => some (c.m_sorted_mods.map ModSpec.name).toFinset

theorem loaded_eq {c₁ c₂ : ModConfiguration} (h : c₁.Alike c₂) (hnew : c₁.m_sorted_mods = [])
    {shuffled₁ shuffled₂ : List ModSpec} (h₁ : shuffled₁.Perm c₁.m_unsatisfied_mods)
    (h₂ : shuffled₂.Perm c₂.m_unsatisfied_mods) :
    loaded (c₁.resolveDependencies shuffled₁) = loaded (c₂.resolveDependencies shuffled₂) := by
  have hnew' : c₂.m_sorted_mods = [] := by
    rw [← hnew]
    exact (congrArg (fun frame => frame.2.2) h.frame).symm
  by_cases hc : c₁.Accepted
  · obtain ⟨c₁', hok₁, hresolved₁⟩ := resolveDependencies_resolved h.nodup hnew h₁ hc
    obtain ⟨c₂', hok₂, hresolved₂⟩ :=
      resolveDependencies_resolved h.symm.nodup hnew' h₂ (h.accepted hc)
    rw [hok₁, hok₂]
    simp only [loaded, Option.some.injEq]
    ext name
    rw [List.mem_toFinset, List.mem_toFinset, hresolved₁.mem, hresolved₂.mem, h.satisfiable]
  · obtain ⟨e₁, herror₁⟩ := resolveDependencies_error hc h₁
    obtain ⟨e₂, herror₂⟩ := resolveDependencies_error (fun hc' => hc (h.symm.accepted hc')) h₂
    rw [herror₁, herror₂]
    rfl

/-- Of the mods that were added, those whose hard and present optional dependencies are all there,
on no cycle and themselves so are sorted, each after what it requires, whatever the order of
adding. -/
theorem resolveDependencies_exact (first last : ByteString) (batches : List (List ModSpec))
    (shuffled : List ModSpec)
    (hshuffled : shuffled.Perm (added first last batches).m_unsatisfied_mods) :
    ((added first last batches).Accepted →
      ∃ c', (added first last batches).resolveDependencies shuffled = .ok c' ∧
        (added first last batches).Resolved c') ∧
    (¬(added first last batches).Accepted →
      ∃ e, (added first last batches).resolveDependencies shuffled = .error e) ∧
    ∀ batches₂ shuffled₂, batches₂.flatten.Perm batches.flatten →
      (batches.flatten.map ModSpec.name).Nodup →
      shuffled₂.Perm (added first last batches₂).m_unsatisfied_mods →
        loaded ((added first last batches₂).resolveDependencies shuffled₂) =
          loaded ((added first last batches).resolveDependencies shuffled) := by
  have hframe := frame_added first last batches
  have hnew : ∀ batches, (added first last batches).m_sorted_mods = [] := fun batches =>
    congrArg (fun frame => frame.2.2) (frame_added first last batches)
  refine ⟨?_, fun hc => resolveDependencies_error hc hshuffled, ?_⟩
  · exact resolveDependencies_resolved (nodup_added first last batches) (hnew batches) hshuffled
  · intro batches₂ shuffled₂ hperm hnodup hshuffled₂
    have hmods₂ := perm_added first last ((hperm.map _).nodup_iff.2 hnodup)
    have hmods := perm_added first last hnodup
    refine loaded_eq ⟨?_, (hmods₂.trans hperm).trans hmods.symm, ?_⟩ (hnew batches₂) hshuffled₂
      hshuffled
    · rw [frame_added, frame_added]
    · exact nodup_added first last batches₂

/-- A mod with one optional dependency, and the mod that it is on, which misses one. -/
def optional : ModSpec := { name := [97], optdepends := {[98]} }

def missing : ModSpec := { name := [98], depends := {[99]} }

theorem resolveDependencies_exact_optional :
    (∃ c', (added [] [] [[optional, missing]]).resolveDependencies [optional, missing] = .ok c' ∧
      (added [] [] [[optional, missing]]).Resolved c') ∧
    loaded ((added [] [] [[missing], [optional]]).resolveDependencies [optional, missing]) =
      loaded ((added [] [] [[optional, missing]]).resolveDependencies [optional, missing]) := by
  have h := resolveDependencies_exact [] [] [[optional, missing]] [optional, missing] (by decide)
  refine ⟨h.1 ⟨by decide, by decide⟩, ?_⟩
  exact h.2.2 [[missing], [optional]] [optional, missing] (by decide) (by decide) (by decide)

theorem requires_optional {a b : ByteString}
    (h : (added [] [] [[optional, missing]]).Requires a b) :
    a = [97] ∧ b = [98] ∨ a = [98] ∧ b = [99] := by
  have hmods : (added [] [] [[optional, missing]]).m_unsatisfied_mods = [optional, missing] := by
    decide
  rcases h with ⟨mod, hmod, rfl, hb, -⟩ | ⟨mod, hmod, ⟨rfl, -⟩, hb, -⟩ <;>
    rw [hmods, List.mem_pair] at hmod <;> obtain rfl | rfl := hmod <;>
    simp_all [optional, missing]

/-- Hard dependencies alone do not decide it: what misses an optional dependency that is there waits
for it. -/
theorem not_resolveDependencies_hard : ¬∀ (first last : ByteString) (batches : List (List ModSpec))
    (shuffled : List ModSpec) (c' : ModConfiguration),
    shuffled.Perm (added first last batches).m_unsatisfied_mods →
    (added first last batches).resolveDependencies shuffled = .ok c' →
    ∀ name, name ∈ c'.m_sorted_mods.map ModSpec.name ↔
      (∀ b, ReflTransGen (added first last batches).Depends name b →
        b ∈ (added first last batches).names) ∧
      ∀ b, ReflTransGen (added first last batches).Requires name b →
        ¬TransGen (added first last batches).Requires b b := by
  intro h
  have hsorted := h [] [] [[optional, missing]] [optional, missing]
    { m_unsatisfied_mods := [{ optional with unsatisfied_depends := {[98]} },
        { missing with unsatisfied_depends := {[99]} }] } (by decide) (by decide) [97]
  refine absurd (hsorted.2 ⟨fun b hb => ?_, fun b _ hcycle => ?_⟩) (by simp)
  · rcases hb.cases_head with rfl | ⟨b', ⟨mod, hmod, hname, hb', hne⟩, -⟩
    · exact ⟨optional, by decide, rfl⟩
    · -- the mod has no hard dependency
      rcases requires_optional (.inl ⟨mod, hmod, hname, hb', hne⟩) with ⟨-, rfl⟩ | ⟨hne, -⟩
      · have hmods : mod ∈ [optional, missing] := hmod
        obtain rfl | rfl := List.mem_pair.1 hmods
        · simp [optional] at hb'
        · simp [missing] at hname
      · simp at hne
  · have hrank : ∀ a b, TransGen (added [] [] [[optional, missing]]).Requires a b →
        (a = [97] ∧ (b = [98] ∨ b = [99])) ∨ a = [98] ∧ b = [99] := by
      intro a b hab
      induction hab with
      | single hab => have := requires_optional hab; tauto
      | tail _ hbc ih =>
        have := requires_optional hbc
        rcases ih with ⟨rfl, rfl | rfl⟩ | ⟨rfl, rfl⟩ <;> simp_all
    have := hrank b b hcycle
    rcases this with ⟨rfl, hb | hb⟩ | ⟨rfl, hb⟩ <;> simp at hb

end ModConfiguration

end Freeminer.Content
