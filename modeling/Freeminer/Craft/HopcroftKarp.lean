import Mathlib.Data.Finset.Card

/-! `hopcroft_karp_can_match_all`: whether a bipartite graph with as many nodes on both sides has a
perfect matching. A breadth-first search from the unmatched nodes gives distances, depth-first
searches along them augment the matching, and so on until the first search fails. -/

namespace Freeminer.Craft

/-- `bip_graph`: the neighbours of every node. -/
abbrev BipGraph := List (List ℕ)

namespace BipGraph

def inf : ℕ := 65535

/-- The partners of the nodes on both sides, `nil` if there is none, and the distances. -/
structure State where
  pairU : ℕ → ℕ
  pairV : ℕ → ℕ
  dist : ℕ → ℕ

def nil (g : BipGraph) : ℕ := g.length

def neighbors (g : BipGraph) (u : ℕ) : List ℕ := g.getD u []

/-! ## The searches -/

/-- Goes to the unvisited partners of the neighbours of `u`. -/
def bfsVisit (pairV : ℕ → ℕ) (u : ℕ) : List ℕ → (ℕ → ℕ) → List ℕ → (ℕ → ℕ) × List ℕ
  | [], dist, queue => (dist, queue)
  | v :: vs, dist, queue =>
    let uBack := pairV v
    if dist uBack = inf then
      bfsVisit pairV u vs (Function.update dist uBack (dist u + 1)) (queue ++ [uBack])
    else bfsVisit pairV u vs dist queue

def bfsLoop (g : BipGraph) (pairV : ℕ → ℕ) : ℕ → (ℕ → ℕ) → List ℕ → Option (ℕ → ℕ)
  | _, dist, [] => some dist
  | 0, _, _ :: _ => none
  | fuel + 1, dist, u :: queue =>
    -- if dummy not yet reached
    if dist u < dist g.nil then
      let (dist, queue) := bfsVisit pairV u (g.neighbors u) dist queue
      bfsLoop g pairV fuel dist queue
    else bfsLoop g pairV fuel dist queue

def bfs (g : BipGraph) (σ : State) : Option (ℕ → ℕ) :=
  bfsLoop g σ.pairV (g.length + 2)
    (fun u => if u < g.length ∧ σ.pairU u = g.nil then 0 else inf)
    ((List.range g.length).filter fun u => σ.pairU u = g.nil)

/-- Tries the neighbours of `u`, going back to their partners. -/
def dfsVisit (recurse : ℕ → State → Option (Bool × State)) (u : ℕ) :
    List ℕ → State → Option (Bool × State)
  -- unsuccessful path, don't walk here again
  | [], σ => some (false, { σ with dist := Function.update σ.dist u inf })
  | v :: vs, σ =>
    let uBack := σ.pairV v
    if σ.dist uBack ≠ σ.dist u + 1 then dfsVisit recurse u vs σ
    else
      match recurse uBack σ with
      | none => none
      | some (true, σ) =>
        some (true, { σ with
          pairV := Function.update σ.pairV v u, pairU := Function.update σ.pairU u v })
      | some (false, σ) => dfsVisit recurse u vs σ

/-- An augmenting path from `u` to the dummy. -/
def dfs (g : BipGraph) : ℕ → ℕ → State → Option (Bool × State)
  | 0, _, _ => none
  | fuel + 1, u, σ =>
    if u = g.nil then some (true, σ) else dfsVisit (dfs g fuel) u (g.neighbors u) σ

def phase (g : BipGraph) : List ℕ → State → ℕ → Option (State × ℕ)
  | [], σ, numMatched => some (σ, numMatched)
  | u :: us, σ, numMatched =>
    if σ.pairU u = g.nil then
      match dfs g (inf + 2) u σ with
      | none => none
      | some (found, σ) => phase g us σ (if found then numMatched + 1 else numMatched)
    else phase g us σ numMatched

def matchLoop (g : BipGraph) : ℕ → State → ℕ → Option ℕ
  | 0, _, _ => none
  | fuel + 1, σ, numMatched =>
    match bfs g σ with
    | none => none
    | some dist =>
      if dist g.nil = inf then some numMatched
      else
        match phase g (List.range g.length) { σ with dist } numMatched with
        | none => none
        | some (σ, numMatched) => matchLoop g fuel σ numMatched

def init (g : BipGraph) : State where
  pairU _ := g.nil
  pairV _ := g.nil
  dist _ := inf

def canMatchAll (g : BipGraph) : Bool := g.matchLoop (g.length + 1) g.init 0 == some g.length

/-! ## Matchings -/

def Closed (g : BipGraph) : Prop := ∀ u, ∀ v ∈ g.neighbors u, v < g.length

structure Matched (g : BipGraph) (σ : State) : Prop where
  pairU : ∀ u < g.length, σ.pairU u ≠ g.nil →
    σ.pairU u ∈ g.neighbors u ∧ σ.pairV (σ.pairU u) = u
  pairV : ∀ v < g.length, σ.pairV v ≠ g.nil → σ.pairV v < g.length ∧ σ.pairU (σ.pairV v) = v

def matchedNodes (g : BipGraph) (σ : State) : Finset ℕ :=
  (Finset.range g.length).filter fun u => σ.pairU u ≠ g.nil

def Perfect (g : BipGraph) : Prop :=
  ∃ f : ℕ → ℕ, (∀ u < g.length, f u ∈ g.neighbors u) ∧ Set.InjOn f {u | u < g.length}

variable {g : BipGraph} {σ σ' σ₁ : State} {u v w : ℕ} {dist dist' : ℕ → ℕ} {queue queue' : List ℕ}
  {pairV : ℕ → ℕ}

theorem perfect_of_matched (h : Matched g σ) (hall : g.matchedNodes σ = Finset.range g.length) :
    g.Perfect := by
  have hne : ∀ u < g.length, σ.pairU u ≠ g.nil := by
    intro u hu
    have : u ∈ g.matchedNodes σ := hall ▸ Finset.mem_range.mpr hu
    exact (Finset.mem_filter.mp this).2
  refine ⟨σ.pairU, fun u hu => (h.pairU u hu (hne u hu)).1, fun u hu u' hu' heq => ?_⟩
  rw [← (h.pairU u hu (hne u hu)).2, ← (h.pairU u' hu' (hne u' hu')).2, heq]

/-- If a set of nodes has all unmatched ones and the partners of all its neighbours, and there is a
perfect matching, then no node is unmatched. -/
theorem matchedNodes_of_closed (hclosed : g.Closed) (h : Matched g σ) (hperfect : g.Perfect)
    (s : Finset ℕ) (hs : s ⊆ Finset.range g.length)
    (hunmatched : ∀ u < g.length, σ.pairU u = g.nil → u ∈ s)
    (hback : ∀ u ∈ s, ∀ v ∈ g.neighbors u, σ.pairV v ∈ s) :
    g.matchedNodes σ = Finset.range g.length := by
  obtain ⟨f, hf, hinj⟩ := hperfect
  have hlt : ∀ u ∈ s, u < g.length := fun u hu => Finset.mem_range.mp (hs hu)
  -- going to a neighbour and back to its partner is injective, and ends at matched nodes
  have hne : ∀ u ∈ s, σ.pairV (f u) ≠ g.nil := fun u hu =>
    (hlt _ (hback u hu _ (hf u (hlt u hu)))).ne
  have hpair : ∀ u ∈ s, σ.pairU (σ.pairV (f u)) = f u := fun u hu =>
    (h.pairV _ (hclosed u _ (hf u (hlt u hu))) (hne u hu)).2
  have hmaps : ∀ u ∈ s, σ.pairV (f u) ∈ s.filter fun u => σ.pairU u ≠ g.nil := by
    intro u hu
    refine Finset.mem_filter.mpr ⟨hback u hu _ (hf u (hlt u hu)), ?_⟩
    rw [hpair u hu]
    exact (hclosed u _ (hf u (hlt u hu))).ne
  have hcard : s.card ≤ (s.filter fun u => σ.pairU u ≠ g.nil).card := by
    refine Finset.card_le_card_of_injOn (fun u => σ.pairV (f u)) hmaps fun u hu u' hu' heq => ?_
    refine hinj (hlt u hu) (hlt u' hu') ?_
    rw [← hpair u hu, ← hpair u' hu']
    exact congrArg σ.pairU heq
  have hall : s.filter (fun u => σ.pairU u ≠ g.nil) = s :=
    Finset.eq_of_subset_of_card_le (Finset.filter_subset _ _) hcard
  refine Finset.filter_true_of_mem fun u hu hnil => ?_
  have hmem := hunmatched u (Finset.mem_range.mp hu) hnil
  rw [← hall] at hmem
  exact (Finset.mem_filter.mp hmem).2 hnil

/-! ## Breadth-first search -/

def unvisited (g : BipGraph) (dist : ℕ → ℕ) : ℕ :=
  ((Finset.range (g.length + 1)).filter fun x => dist x = inf).card

structure Visited (g : BipGraph) (pairV : ℕ → ℕ) (d : ℕ) (vs : List ℕ) (dist : ℕ → ℕ)
    (queue : List ℕ) (dist' : ℕ → ℕ) (queue' : List ℕ) : Prop where
  old : ∀ x, dist x ≠ inf → dist' x = dist x
  new : ∀ x, dist x = inf → dist' x ≠ inf → (∃ v ∈ vs, pairV v = x) ∧ dist' x = d + 1
  visited : ∀ v ∈ vs, dist' (pairV v) ≠ inf
  queued : ∀ x, x ∈ queue' ↔ x ∈ queue ∨ dist x = inf ∧ dist' x ≠ inf
  unvisited : queue'.length + g.unvisited dist' = queue.length + g.unvisited dist

theorem unvisited_update (dist : ℕ → ℕ) {x d : ℕ} (hx : x ≤ g.length) (h : dist x = inf) (hd : d ≠ inf) :
    g.unvisited (Function.update dist x d) + 1 = g.unvisited dist := by
  unfold unvisited
  have herase : ((Finset.range (g.length + 1)).filter fun y => Function.update dist x d y = inf) =
      ((Finset.range (g.length + 1)).filter fun y => dist y = inf).erase x := by
    ext y
    by_cases hy : y = x
    · subst hy
      simp [hd]
    · simp [hy]
  rw [herase, Finset.card_erase_add_one]
  exact Finset.mem_filter.mpr ⟨Finset.mem_range.mpr (Nat.lt_succ_of_le hx), h⟩

theorem bfsVisit_spec (g : BipGraph) (dist : ℕ → ℕ) (queue : List ℕ) {vs : List ℕ}
    (hvs : ∀ v ∈ vs, pairV v ≤ g.length) (hu : dist u ≠ inf) (hd : dist u + 1 ≠ inf) :
    ∃ dist' queue', bfsVisit pairV u vs dist queue = (dist', queue') ∧
      Visited g pairV (dist u) vs dist queue dist' queue' := by
  induction vs generalizing dist queue with
  | nil =>
    exact ⟨dist, queue, rfl, fun _ _ => rfl, fun x h h' => absurd h h', by simp,
      fun x => ⟨.inl, fun h => h.resolve_right fun h => h.2 h.1⟩, rfl⟩
  | cons v vs ih =>
    have hvs' : ∀ v ∈ vs, pairV v ≤ g.length := fun v hv => hvs v (List.mem_cons_of_mem _ hv)
    rw [bfsVisit]
    split_ifs with hinf
    · -- the partner is new
      have hne : u ≠ pairV v := fun h => hu (h ▸ hinf)
      have hself : Function.update dist (pairV v) (dist u + 1) u = dist u :=
        Function.update_of_ne hne _ _
      obtain ⟨dist', queue', heq, h⟩ := ih (Function.update dist (pairV v) (dist u + 1))
        (queue ++ [pairV v]) hvs' (by rwa [hself]) (by rwa [hself])
      rw [hself] at h
      have hnew : dist' (pairV v) = dist u + 1 := by
        rw [h.old _ (by rwa [Function.update_self]), Function.update_self]
      refine ⟨dist', queue', heq, fun x hx => ?_, fun x hx hx' => ?_, fun x hx => ?_, fun x => ?_, ?_⟩
      · have hxv : x ≠ pairV v := fun h => hx (h ▸ hinf)
        rw [h.old x (by rwa [Function.update_of_ne hxv]), Function.update_of_ne hxv]
      · by_cases hxv : x = pairV v
        · exact ⟨⟨v, List.mem_cons_self .., hxv.symm⟩, hxv ▸ hnew⟩
        · obtain ⟨⟨v', hv', hback⟩, hd'⟩ := h.new x (by rwa [Function.update_of_ne hxv]) hx'
          exact ⟨⟨v', List.mem_cons_of_mem _ hv', hback⟩, hd'⟩
      · rcases List.mem_cons.mp hx with rfl | hx
        · rwa [hnew]
        · exact h.visited x hx
      · rw [h.queued x, List.mem_append, List.mem_singleton]
        by_cases hxv : x = pairV v
        · subst hxv
          simp [hinf, hnew, hd]
        · rw [Function.update_of_ne hxv]
          simp [hxv]
      · have hcount := unvisited_update dist (hvs v (List.mem_cons_self ..)) hinf hd
        have hsum := h.unvisited
        rw [List.length_append, List.length_singleton] at hsum
        omega
    · obtain ⟨dist', queue', heq, h⟩ := ih dist queue hvs' hu hd
      refine ⟨dist', queue', heq, h.old, fun x hx hx' => ?_, fun x hx => ?_, h.queued, h.unvisited⟩
      · obtain ⟨⟨v', hv', hback⟩, hd'⟩ := h.new x hx hx'
        exact ⟨⟨v', List.mem_cons_of_mem _ hv', hback⟩, hd'⟩
      · rcases List.mem_cons.mp hx with rfl | hx
        · rwa [h.old _ hinf]
        · exact h.visited x hx

/-- Every visited node is unmatched or comes after another visited node; and unless the dummy was
reached, the partners of the neighbours of a node that is done are visited. -/
structure BfsInv (g : BipGraph) (σ : State) (dist : ℕ → ℕ) (queue : List ℕ) : Prop where
  queued : ∀ x ∈ queue, x ≤ g.length ∧ dist x ≠ inf
  unmatched : ∀ u < g.length, σ.pairU u = g.nil → dist u = 0
  reached : ∀ x ≤ g.length, dist x ≠ inf → (dist x = 0 ∧ x < g.length ∧ σ.pairU x = g.nil) ∨
    ∃ u < g.length, ∃ v ∈ g.neighbors u, σ.pairV v = x ∧ dist u ≠ inf ∧ dist x = dist u + 1
  closed : dist g.nil = inf → ∀ u < g.length, dist u ≠ inf → u ∉ queue →
    ∀ v ∈ g.neighbors u, dist (σ.pairV v) ≠ inf
  le : ∀ x, dist x ≤ inf

theorem BfsInv.levels (h : BfsInv g σ dist queue) {x : ℕ} (hx : x ≤ g.length)
    (hinf : dist x ≠ inf) : ∀ k < dist x, ∃ u < g.length, dist u = k := by
  induction hd : dist x generalizing x with
  | zero => exact fun k hk => absurd hk (Nat.not_lt_zero _)
  | succ d ih =>
    intro k hk
    rcases h.reached x hx hinf with ⟨h0, -⟩ | ⟨u, hu, v, -, -, hu', hsucc⟩
    · omega
    · rcases Nat.lt_succ_iff_lt_or_eq.mp hk with hlt | rfl
      · exact ih hu.le hu' (by omega) k hlt
      · exact ⟨u, hu, by omega⟩

theorem BfsInv.dist_le (h : BfsInv g σ dist queue) {x : ℕ} (hx : x ≤ g.length)
    (hinf : dist x ≠ inf) : dist x ≤ g.length := by
  have hsub : Finset.range (dist x) ⊆ (Finset.range g.length).image dist := by
    intro k hk
    obtain ⟨u, hu, hd⟩ := h.levels hx hinf k (Finset.mem_range.mp hk)
    exact Finset.mem_image.mpr ⟨u, Finset.mem_range.mpr hu, hd⟩
  have hcard := (Finset.card_le_card hsub).trans Finset.card_image_le
  simpa using hcard

theorem Matched.pairV_le (hclosed : g.Closed) (h : Matched g σ) (hv : v ∈ g.neighbors u) :
    σ.pairV v ≤ g.length := by
  by_cases hne : σ.pairV v = g.nil
  · exact hne.le
  · exact (h.pairV v (hclosed u v hv) hne).1.le

/-- One node is taken from the queue and expanded. -/
theorem BfsInv.visit (hn : g.length + 1 < inf) (hclosed : g.Closed) (hσ : Matched g σ)
    (h : BfsInv g σ dist (u :: queue)) (hlt : dist u < dist g.nil) :
    ∃ dist' queue', bfsVisit σ.pairV u (g.neighbors u) dist queue = (dist', queue') ∧
      BfsInv g σ dist' queue' ∧
      queue'.length + g.unvisited dist' = queue.length + g.unvisited dist := by
  obtain ⟨hle, hinf⟩ := h.queued u (List.mem_cons_self ..)
  have hu : u < g.length := lt_of_le_of_ne hle fun heq => by
    rw [heq] at hlt
    exact lt_irrefl _ hlt
  have hd := h.dist_le hle hinf
  obtain ⟨dist', queue', heq, hvisited⟩ := bfsVisit_spec g dist queue
    (fun v hv => hσ.pairV_le hclosed hv) hinf (by omega)
  have hold : ∀ x, dist x ≠ inf → dist' x ≠ inf := fun x hx => by
    rwa [hvisited.old x hx]
  refine ⟨dist', queue', heq, ⟨fun x hx => ?_, fun x hx hnil => ?_, fun x hx hx' => ?_,
    fun hnil x hx hx' hq v hv => ?_, fun x => ?_⟩, hvisited.unvisited⟩
  · rcases (hvisited.queued x).mp hx with hx | ⟨hx, hx'⟩
    · obtain ⟨hle', hne⟩ := h.queued x (List.mem_cons_of_mem _ hx)
      exact ⟨hle', hold x hne⟩
    · obtain ⟨⟨v, hv, rfl⟩, -⟩ := hvisited.new x hx hx'
      exact ⟨hσ.pairV_le hclosed hv, hx'⟩
  · have h0 := h.unmatched x hx hnil
    rw [hvisited.old x (by rw [h0]; decide), h0]
  · by_cases hxinf : dist x = inf
    · obtain ⟨⟨v, hv, hback⟩, hd'⟩ := hvisited.new x hxinf hx'
      refine .inr ⟨u, hu, v, hv, hback, hold u hinf, ?_⟩
      rw [hd', hvisited.old u hinf]
    · rw [hvisited.old x hxinf]
      refine (h.reached x hx hxinf).imp_right ?_
      rintro ⟨u', hu', v, hv, hback, hne, hd'⟩
      exact ⟨u', hu', v, hv, hback, hold u' hne, by rw [hvisited.old u' hne, hd']⟩
  · by_cases hxinf : dist x = inf
    · exact absurd ((hvisited.queued x).mpr (.inr ⟨hxinf, hx'⟩)) hq
    · by_cases hxu : x = u
      · exact hvisited.visited v (hxu ▸ hv)
      · have hnil' : dist g.nil = inf := by
          by_contra hne
          exact hold _ hne hnil
        refine hold _ (h.closed hnil' x hx hxinf ?_ v hv)
        rw [List.mem_cons, not_or]
        exact ⟨hxu, fun hmem => hq ((hvisited.queued x).mpr (.inl hmem))⟩
  · by_cases hxinf : dist x = inf
    · by_cases hx' : dist' x = inf
      · exact hx'.le
      · rw [(hvisited.new x hxinf hx').2]
        omega
    · rw [hvisited.old x hxinf]
      exact h.le x

/-- A node that is as far as the dummy is not expanded. -/
theorem BfsInv.skip (h : BfsInv g σ dist (u :: queue)) (hlt : ¬dist u < dist g.nil) :
    BfsInv g σ dist queue := by
  refine { h with
    queued := fun x hx => h.queued x (List.mem_cons_of_mem _ hx)
    closed := fun hnil => absurd (lt_of_le_of_ne (h.le u) ?_) (hnil ▸ hlt) }
  exact (h.queued u (List.mem_cons_self ..)).2

theorem bfsLoop_spec (hn : g.length + 1 < inf) (hclosed : g.Closed) (hσ : Matched g σ) {fuel : ℕ}
    (hfuel : queue.length + g.unvisited dist ≤ fuel) (h : BfsInv g σ dist queue) :
    ∃ dist', bfsLoop g σ.pairV fuel dist queue = some dist' ∧ BfsInv g σ dist' [] := by
  induction fuel generalizing dist queue with
  | zero =>
    obtain rfl := List.length_eq_zero_iff.mp (by omega : queue.length = 0)
    exact ⟨dist, rfl, h⟩
  | succ fuel ih =>
    cases queue with
    | nil => exact ⟨dist, rfl, h⟩
    | cons u queue =>
      rw [List.length_cons] at hfuel
      rw [bfsLoop]
      split_ifs with hlt
      · obtain ⟨dist', queue', heq, hinv, hcount⟩ := h.visit hn hclosed hσ hlt
        rw [heq]
        exact ih (by omega) hinv
      · exact ih (by omega) (h.skip hlt)

/-- Every node is queued or unvisited at first. -/
theorem length_queue_init (g : BipGraph) (σ : State) :
    ((List.range g.length).filter fun u => σ.pairU u = g.nil).length +
      g.unvisited (fun u => if u < g.length ∧ σ.pairU u = g.nil then 0 else inf) ≤ g.length + 2 := by
  have hnodup : ((List.range g.length).filter fun u => σ.pairU u = g.nil).Nodup :=
    List.nodup_range.filter _
  rw [← List.toFinset_card_of_nodup hnodup, unvisited, ← Finset.card_union_of_disjoint]
  · refine (Finset.card_le_card (t := Finset.range (g.length + 1)) fun u hu => ?_).trans (by simp)
    rcases Finset.mem_union.mp hu with hu | hu
    · have := List.mem_range.mp (List.mem_filter.mp (List.mem_toFinset.mp hu)).1
      exact Finset.mem_range.mpr (by omega)
    · exact (Finset.mem_filter.mp hu).1
  · rw [Finset.disjoint_left]
    intro u hu hu'
    obtain ⟨hu, hnil⟩ := List.mem_filter.mp (List.mem_toFinset.mp hu)
    have hinf := (Finset.mem_filter.mp hu').2
    rw [if_pos ⟨List.mem_range.mp hu, of_decide_eq_true hnil⟩] at hinf
    exact absurd hinf (by decide)

/-- The search ends, and its distances are right. -/
theorem bfs_spec (hn : g.length + 1 < inf) (hclosed : g.Closed) (hσ : Matched g σ) :
    ∃ dist, g.bfs σ = some dist ∧ BfsInv g σ dist [] := by
  refine bfsLoop_spec hn hclosed hσ (length_queue_init g σ) ⟨fun x hx => ?_,
    fun u hu hnil => ?_, fun x hx hinf => ?_, fun _ u hu hinf hq => ?_, fun x => ?_⟩
  · obtain ⟨hx, hnil⟩ := List.mem_filter.mp hx
    have hx := List.mem_range.mp hx
    rw [decide_eq_true_iff] at hnil
    rw [if_pos ⟨hx, hnil⟩]
    exact ⟨hx.le, by decide⟩
  · rw [if_pos ⟨hu, hnil⟩]
  · split_ifs at hinf ⊢ with hcond
    · exact .inl ⟨rfl, hcond⟩
    · exact absurd rfl hinf
  · split_ifs at hinf with hcond
    · refine absurd ?_ hq
      exact List.mem_filter.mpr ⟨List.mem_range.mpr hu, decide_eq_true hcond.2⟩
    · exact absurd rfl hinf
  · split_ifs
    · exact Nat.zero_le _
    · exact le_rfl

/-! ## Depth-first search -/

/-- The distances are those of the breadth-first search, but for the nodes that were given up; and
whoever was given up, everyone that can come after it was, too. -/
structure Dead (g : BipGraph) (d : ℕ → ℕ) (σ : State) : Prop where
  dist : ∀ x, σ.dist x = d x ∨ σ.dist x = inf
  closed : ∀ x < g.length, σ.dist x = inf → ∀ v ∈ g.neighbors x,
    d (σ.pairV v) = d x + 1 → σ.dist (σ.pairV v) = inf

/-- `u` has got a partner, and everyone who had one still has one. The old partner of `u` still
points to it. -/
structure Augmented (g : BipGraph) (u : ℕ) (σ σ' : State) : Prop where
  matched_iff : ∀ x < g.length, σ'.pairU x ≠ g.nil ↔ σ.pairU x ≠ g.nil ∨ x = u
  pairU : ∀ x < g.length, σ'.pairU x ≠ g.nil →
    σ'.pairU x ∈ g.neighbors x ∧ σ'.pairV (σ'.pairU x) = x
  pairV : ∀ v < g.length, v ≠ σ.pairU u → σ'.pairV v ≠ g.nil →
    σ'.pairV v < g.length ∧ σ'.pairU (σ'.pairV v) = v
  old : σ.pairU u ≠ g.nil → σ'.pairV (σ.pairU u) = u ∧ σ'.pairU u ≠ σ.pairU u
  frame : ∀ x < g.length, x ≠ u → σ.dist x ≤ σ.dist u → σ'.pairU x = σ.pairU x
  le : ∀ x, σ'.dist x ≤ inf

/-- `u` was given up. -/
structure Failed (g : BipGraph) (u : ℕ) (σ σ' : State) : Prop where
  pairU : σ'.pairU = σ.pairU
  pairV : σ'.pairV = σ.pairV
  decay : ∀ x, σ'.dist x = σ.dist x ∨ σ'.dist x = inf
  kept : ∀ x, x ≠ u → σ.dist x ≤ σ.dist u → σ'.dist x = σ.dist x
  nil : σ'.dist g.nil = σ.dist g.nil
  dead : σ'.dist u = inf

/-- How a search from `u` ends. If the distances are still those of the breadth-first search, which
`p` says, and it fails, then they still are. -/
def Outcome (g : BipGraph) (p : Prop) (d : ℕ → ℕ) (u : ℕ) (σ : State) : Bool × State → Prop
  | (true, σ') => u = g.nil ∧ σ' = σ ∨ u < g.length ∧ Augmented g u σ σ'
  | (false, σ') => u < g.length ∧ Failed g u σ σ' ∧ (p → Dead g d σ')

structure Searchable (g : BipGraph) (p : Prop) (d : ℕ → ℕ) (σ : State) : Prop where
  matched : Matched g σ
  le : ∀ x, σ.dist x ≤ inf
  dead : p → Dead g d σ

variable {p : Prop} {d : ℕ → ℕ} {vs : List ℕ} {fuel : ℕ}

theorem Failed.matched (h : Failed g u σ σ') (hσ : Matched g σ) : Matched g σ' := by
  constructor
  · rw [h.pairU, h.pairV]
    exact hσ.pairU
  · rw [h.pairU, h.pairV]
    exact hσ.pairV

theorem Failed.le (h : Failed g u σ σ') (hle : ∀ x, σ.dist x ≤ inf) (x : ℕ) : σ'.dist x ≤ inf := by
  rcases h.decay x with hx | hx <;> rw [hx]
  exact hle x

/-- A failed search further on does not change what is nearer. -/
theorem Failed.kept_le (h : Failed g w σ σ₁) (hlt : σ.dist u < σ.dist w) {x : ℕ}
    (hx : σ.dist x ≤ σ.dist u) : σ₁.dist x = σ.dist x :=
  h.kept x (fun hxw => absurd (hxw ▸ hx) (not_le.mpr hlt)) (hx.trans hlt.le)

theorem Failed.trans (h : Failed g w σ σ₁) (h' : Failed g u σ₁ σ') (hlt : σ.dist u < σ.dist w) :
    Failed g u σ σ' where
  pairU := h'.pairU.trans h.pairU
  pairV := h'.pairV.trans h.pairV
  decay x := by
    rcases h'.decay x with hx | hx
    · rw [hx]
      exact h.decay x
    · exact .inr hx
  kept x hx hle := by
    have hx₁ := h.kept_le hlt hle
    rw [h'.kept x hx (by rwa [hx₁, h.kept_le hlt le_rfl]), hx₁]
  nil := h'.nil.trans h.nil
  dead := h'.dead

theorem Failed.augmented_trans (h : Failed g w σ σ₁) (h' : Augmented g u σ₁ σ')
    (hlt : σ.dist u < σ.dist w) : Augmented g u σ σ' := by
  obtain ⟨hiff, hU, hV, hold, hframe, hle⟩ := h'
  rw [h.pairU] at hiff hV hold hframe
  refine ⟨hiff, hU, hV, hold, fun x hx hne hxu => hframe x hx hne ?_, hle⟩
  rwa [h.kept_le hlt hxu, h.kept_le hlt le_rfl]

/-- The neighbour `v` of `u` is free to be taken: no one has it, and nothing nearer has changed. -/
structure Freed (g : BipGraph) (u v : ℕ) (σ σ₁ : State) : Prop where
  matched_iff : ∀ x < g.length, σ₁.pairU x ≠ g.nil ↔ σ.pairU x ≠ g.nil
  pairU : ∀ x < g.length, σ₁.pairU x ≠ g.nil →
    σ₁.pairU x ∈ g.neighbors x ∧ σ₁.pairV (σ₁.pairU x) = x
  pairV : ∀ v' < g.length, v' ≠ v → σ₁.pairV v' ≠ g.nil →
    σ₁.pairV v' < g.length ∧ σ₁.pairU (σ₁.pairV v') = v'
  free : ∀ x < g.length, σ₁.pairU x ≠ v
  frame : ∀ x < g.length, σ.dist x ≤ σ.dist u → σ₁.pairU x = σ.pairU x
  le : ∀ x, σ₁.dist x ≤ inf

theorem freed_of_nil (hσ : Matched g σ) (hle : ∀ x, σ.dist x ≤ inf) (hv : v < g.length)
    (hnil : σ.pairV v = g.nil) : Freed g u v σ σ where
  matched_iff _ _ := Iff.rfl
  pairU := hσ.pairU
  pairV v' hv' _ := hσ.pairV v' hv'
  free x hx heq := by
    have hback := (hσ.pairU x hx (heq ▸ hv.ne)).2
    rw [heq, hnil] at hback
    exact hx.ne hback.symm
  frame _ _ _ := rfl
  le := hle

theorem Augmented.freed (hσ : Matched g σ) (hv : v < g.length) (hne : σ.pairV v ≠ g.nil)
    (hd : σ.dist (σ.pairV v) = σ.dist u + 1) (h : Augmented g (σ.pairV v) σ σ₁) :
    Freed g u v σ σ₁ := by
  obtain ⟨hw, hback⟩ := hσ.pairV v hv hne
  have hpair : σ.pairU (σ.pairV v) ≠ g.nil := hback.symm ▸ hv.ne
  obtain ⟨hold, hold'⟩ := h.old hpair
  rw [hback] at hold hold'
  refine ⟨fun x hx => ?_, h.pairU, fun v' hv' hvv => h.pairV v' hv' (hback.symm ▸ hvv),
    fun x hx heq => ?_, fun x hx hxu => h.frame x hx (fun heq => ?_) (by omega), h.le⟩
  · rw [h.matched_iff x hx, or_iff_left_of_imp]
    rintro rfl
    exact hpair
  · have hx' := (h.pairU x hx (heq ▸ hv.ne)).2
    rw [heq, hold] at hx'
    exact hold' (hx' ▸ heq)
  · rw [heq] at hxu
    omega

theorem Freed.augmented (h : Freed g u v σ σ₁) (hσ : Matched g σ) (hu : u < g.length)
    (hv : v ∈ g.neighbors u) (hvlt : v < g.length) (hback : σ.pairV v ≠ u) :
    Augmented g u σ { σ₁ with
      pairV := Function.update σ₁.pairV v u, pairU := Function.update σ₁.pairU u v } := by
  have hpair : σ₁.pairU u = σ.pairU u := h.frame u hu le_rfl
  refine ⟨fun x hx => ?_, fun x hx hne => ?_, fun v' hv' hvv hne => ?_, fun hne => ?_,
    fun x hx hne hxu => ?_, h.le⟩
  · dsimp only
    by_cases hxu : x = u
    · subst hxu
      simp [hvlt.ne, nil]
    · rw [Function.update_of_ne hxu, h.matched_iff x hx]
      exact (or_iff_left hxu).symm
  · dsimp only at hne ⊢
    by_cases hxu : x = u
    · subst hxu
      rw [Function.update_self, Function.update_self]
      exact ⟨hv, rfl⟩
    · rw [Function.update_of_ne hxu] at hne ⊢
      rw [Function.update_of_ne (h.free x hx)]
      exact h.pairU x hx hne
  · dsimp only at hne ⊢
    by_cases hv'v : v' = v
    · subst hv'v
      rw [Function.update_self, Function.update_self]
      exact ⟨hu, rfl⟩
    · rw [Function.update_of_ne hv'v] at hne ⊢
      obtain ⟨hlt, heq⟩ := h.pairV v' hv' hv'v hne
      rw [Function.update_of_ne fun hyu => hvv (by rw [← heq, hyu, hpair])]
      exact ⟨hlt, heq⟩
  · have hold : σ.pairU u ≠ v := fun heq => hback (heq ▸ (hσ.pairU u hu hne).2)
    dsimp only
    rw [Function.update_of_ne hold, Function.update_self, ← hpair]
    exact ⟨(h.pairU u hu (hpair ▸ hne)).2, fun heq => hold (hpair ▸ heq.symm)⟩
  · dsimp only
    rw [Function.update_of_ne hne]
    exact h.frame x hx hxu

/-- Scanning the neighbours of `u`, of which those before `vs` are done. -/
theorem dfsVisit_spec (hclosed : g.Closed) (hu : u < g.length)
    (ih : ∀ w σ, w ≤ g.length → Searchable g p d σ → inf + 2 ≤ fuel + σ.dist w →
      ∃ r, dfs g fuel w σ = some r ∧ Outcome g p d w σ r)
    (hvs : ∀ v ∈ vs, v ∈ g.neighbors u) (h : Searchable g p d σ)
    (hfuel : inf + 2 ≤ fuel + 1 + σ.dist u)
    (hdone : p → ∀ v ∈ g.neighbors u, v ∉ vs → d (σ.pairV v) = d u + 1 →
      σ.dist (σ.pairV v) = inf) :
    ∃ r, dfsVisit (dfs g fuel) u vs σ = some r ∧ Outcome g p d u σ r := by
  induction vs generalizing σ with
  | nil =>
    have hinf : ∀ x, σ.dist x = inf → Function.update σ.dist u inf x = inf := by
      intro x hx
      by_cases hxu : x = u
      · rw [hxu, Function.update_self]
      · rwa [Function.update_of_ne hxu]
    have hdecay : ∀ x, Function.update σ.dist u inf x = σ.dist x ∨
        Function.update σ.dist u inf x = inf := by
      intro x
      by_cases hxu : x = u
      · exact .inr (by rw [hxu, Function.update_self])
      · exact .inl (Function.update_of_ne hxu _ _)
    refine ⟨_, rfl, hu, ⟨rfl, rfl, hdecay, fun x hx _ => Function.update_of_ne hx _ _,
      Function.update_of_ne hu.ne' _ _, Function.update_self _ _ _⟩, fun hp => ⟨fun x => ?_,
      fun x hx hxinf v hv hxv => hinf _ ?_⟩⟩
    · dsimp only
      rcases hdecay x with hx | hx
      · rw [hx]
        exact (h.dead hp).dist x
      · exact .inr hx
    · dsimp only at hxinf hxv ⊢
      by_cases hxu : x = u
      · exact hdone hp v (hxu ▸ hv) (List.not_mem_nil) (hxu ▸ hxv)
      · rw [Function.update_of_ne hxu] at hxinf
        exact (h.dead hp).closed x hx hxinf v hv hxv
  | cons v vs ihvs =>
    have hv := hvs v (List.mem_cons_self ..)
    have hvs' : ∀ v ∈ vs, v ∈ g.neighbors u := fun v' hv' => hvs v' (List.mem_cons_of_mem _ hv')
    rw [dfsVisit]
    split_ifs with hne
    · -- not the next distance, or given up before
      refine ihvs hvs' h hfuel fun hp v' hv' hnot hd => ?_
      by_cases hvv : v' = v
      · subst hvv
        rcases (h.dead hp).dist u with hdu | hdu
        · rcases (h.dead hp).dist (σ.pairV v') with hdw | hdw
          · exact absurd (by rw [hdw, hd, hdu]) hne
          · exact hdw
        · exact (h.dead hp).closed u hu hdu v' hv' hd
      · exact hdone hp v' hv' (by simp [hvv, hnot]) hd
    · rw [not_not] at hne
      have hlt : σ.dist u < σ.dist (σ.pairV v) := by omega
      obtain ⟨⟨found, σ₁⟩, heq, hout⟩ :=
        ih (σ.pairV v) σ (h.matched.pairV_le hclosed hv) h (by omega)
      rw [heq]
      cases found with
      | false =>
        obtain ⟨-, hfailed, hdead⟩ := hout
        have hsearch : Searchable g p d σ₁ :=
          ⟨hfailed.matched h.matched, hfailed.le h.le, hdead⟩
        obtain ⟨⟨found', σ'⟩, heq', hout'⟩ := ihvs hvs' hsearch
          (by rwa [hfailed.kept_le hlt le_rfl]) fun hp v' hv' hnot hd => by
            rw [hfailed.pairV] at hd ⊢
            by_cases hvv : v' = v
            · rw [hvv]
              exact hfailed.dead
            · have hinf := hdone hp v' hv' (by simp [hvv, hnot]) hd
              rcases hfailed.decay (σ.pairV v') with hx | hx
              · rwa [hx]
              · exact hx
        refine ⟨_, heq', ?_⟩
        cases found' with
        | false => exact ⟨hu, hfailed.trans hout'.2.1 hlt, hout'.2.2⟩
        | true =>
          refine .inr ⟨hu, hfailed.augmented_trans ?_ hlt⟩
          exact (hout'.resolve_left fun h => hu.ne h.1).2
      | true =>
        have hvlt := hclosed u v hv
        have hback : σ.pairV v ≠ u := fun heq => absurd (heq ▸ hlt) (lt_irrefl _)
        refine ⟨_, rfl, .inr ⟨hu, ?_⟩⟩
        rcases hout with ⟨hnil, rfl⟩ | ⟨hw, haug⟩
        · exact (freed_of_nil h.matched h.le hvlt hnil).augmented h.matched hu hv hvlt hback
        · exact (haug.freed h.matched hvlt hw.ne hne).augmented h.matched hu hv hvlt hback

theorem dfs_spec (hclosed : g.Closed) {w : ℕ} (hw : w ≤ g.length) (h : Searchable g p d σ)
    (hfuel : inf + 2 ≤ fuel + σ.dist w) :
    ∃ r, dfs g fuel w σ = some r ∧ Outcome g p d w σ r := by
  induction fuel generalizing w σ with
  | zero =>
    have := h.le w
    omega
  | succ fuel ih =>
    rw [dfs]
    split_ifs with hnil
    · exact ⟨_, rfl, .inl ⟨hnil, rfl⟩⟩
    · exact dfsVisit_spec hclosed (lt_of_le_of_ne hw hnil) (fun w σ hw h hfuel => ih hw h hfuel)
        (fun v hv => hv) h hfuel fun _ v hv hnot => absurd hv hnot

/-! ## Phases -/

theorem Augmented.matched (h : Augmented g u σ σ') (hnil : σ.pairU u = g.nil) : Matched g σ' where
  pairU := h.pairU
  pairV v hv hne := h.pairV v hv (fun heq => hv.ne (heq.trans hnil)) hne

theorem Augmented.card_matchedNodes (h : Augmented g u σ σ') (hu : u < g.length)
    (hnil : σ.pairU u = g.nil) : (g.matchedNodes σ').card = (g.matchedNodes σ).card + 1 := by
  have hinsert : g.matchedNodes σ' = insert u (g.matchedNodes σ) := by
    ext x
    rw [Finset.mem_insert, matchedNodes, matchedNodes, Finset.mem_filter, Finset.mem_filter,
      Finset.mem_range]
    constructor
    · rintro ⟨hx, hne⟩
      rcases (h.matched_iff x hx).mp hne with hne | hxu
      · exact .inr ⟨hx, hne⟩
      · exact .inl hxu
    · rintro (rfl | ⟨hx, hne⟩)
      · exact ⟨hu, (h.matched_iff x hu).mpr (.inr rfl)⟩
      · exact ⟨hx, (h.matched_iff x hx).mpr (.inl hne)⟩
  have hnot : u ∉ g.matchedNodes σ := by
    rw [matchedNodes, Finset.mem_filter]
    exact fun hmem => hmem.2 hnil
  rw [hinsert, Finset.card_insert_of_notMem hnot]

/-- Nothing was matched: all nodes that were tried were given up. -/
structure Stuck (g : BipGraph) (p : Prop) (d : ℕ → ℕ) (us : List ℕ) (σ σ' : State) : Prop where
  pairU : σ'.pairU = σ.pairU
  pairV : σ'.pairV = σ.pairV
  nil : σ'.dist g.nil = σ.dist g.nil
  dead : p → Dead g d σ'
  inf_of_inf : ∀ x, σ.dist x = inf → σ'.dist x = inf
  tried : ∀ u ∈ us, σ.pairU u = g.nil → σ'.dist u = inf

theorem phase_spec (hclosed : g.Closed) {us : List ℕ} (hus : ∀ u ∈ us, u < g.length)
    (h : Searchable g p d σ) (m : ℕ) :
    ∃ σ' m', g.phase us σ m = some (σ', m') ∧ Matched g σ' ∧
      m' + (g.matchedNodes σ).card = m + (g.matchedNodes σ').card ∧
      (m < m' ∨ m' = m ∧ Stuck g p d us σ σ') := by
  induction us generalizing p σ m with
  | nil => exact ⟨σ, m, rfl, h.matched, rfl, .inr ⟨rfl, rfl, rfl, rfl, h.dead, fun _ hx => hx, nofun⟩⟩
  | cons u us ih =>
    have hu := hus u (List.mem_cons_self ..)
    have hus' : ∀ u ∈ us, u < g.length := fun u hu => hus u (List.mem_cons_of_mem _ hu)
    rw [phase]
    split_ifs with hnil
    · obtain ⟨⟨found, σ₁⟩, heq, hout⟩ := dfs_spec hclosed hu.le h (Nat.le_add_right (inf + 2) _)
      rw [heq]
      cases found with
      | true =>
        obtain ⟨-, haug⟩ := hout.resolve_left fun h => hu.ne h.1
        have hsearch : Searchable g False d σ₁ := ⟨haug.matched hnil, haug.le, nofun⟩
        obtain ⟨σ', m', hphase, hmatched, hcount, hmore⟩ := ih hus' hsearch (m + 1)
        have hcard := haug.card_matchedNodes hu hnil
        refine ⟨σ', m', hphase, hmatched, by omega, .inl ?_⟩
        rcases hmore with hlt | ⟨heq', -⟩ <;> omega
      | false =>
        obtain ⟨-, hfailed, hdead⟩ := hout
        have hsearch : Searchable g p d σ₁ := ⟨hfailed.matched h.matched, hfailed.le h.le, hdead⟩
        obtain ⟨σ', m', hphase, hmatched, hcount, hmore⟩ := ih hus' hsearch m
        have hcard : g.matchedNodes σ₁ = g.matchedNodes σ := by
          rw [matchedNodes, matchedNodes, hfailed.pairU]
        rw [hcard] at hcount
        refine ⟨σ', m', hphase, hmatched, hcount, hmore.imp_right ?_⟩
        rintro ⟨heq', hstuck⟩
        refine ⟨heq', hstuck.pairU.trans hfailed.pairU, hstuck.pairV.trans hfailed.pairV,
          hstuck.nil.trans hfailed.nil, hstuck.dead, fun x hx => hstuck.inf_of_inf x ?_,
          fun x hx hxnil => ?_⟩
        · rcases hfailed.decay x with hx' | hx'
          · rwa [hx']
          · exact hx'
        · rcases List.mem_cons.mp hx with rfl | hx
          · exact hstuck.inf_of_inf _ hfailed.dead
          · exact hstuck.tried x hx (hfailed.pairU ▸ hxnil)
    · obtain ⟨σ', m', hphase, hmatched, hcount, hmore⟩ := ih hus' h m
      refine ⟨σ', m', hphase, hmatched, hcount, hmore.imp_right ?_⟩
      rintro ⟨heq', hstuck⟩
      refine ⟨heq', { hstuck with tried := fun x hx hxnil => ?_ }⟩
      rcases List.mem_cons.mp hx with rfl | hx
      · exact absurd hxnil hnil
      · exact hstuck.tried x hx hxnil

/-- If the dummy is in reach, someone gets matched. -/
theorem not_stuck (h : BfsInv g σ dist []) (hnil : dist g.nil ≠ inf) {us : List ℕ}
    (hus : ∀ u < g.length, u ∈ us) : ¬Stuck g True dist us { σ with dist } σ' := by
  intro hstuck
  have hdead := hstuck.dead trivial
  -- by induction on the distance, every node in reach was given up
  have hall : ∀ n, ∀ x ≤ g.length, dist x ≠ inf → dist x = n → σ'.dist x = inf := by
    intro n
    induction n with
    | zero =>
      intro x hx hinf hn
      rcases h.reached x hx hinf with ⟨-, hlt, hxnil⟩ | ⟨u, -, v, -, -, -, hsucc⟩
      · exact hstuck.tried x (hus x hlt) hxnil
      · omega
    | succ n ih =>
      intro x hx hinf hn
      rcases h.reached x hx hinf with ⟨h0, -⟩ | ⟨u, hu, v, hv, hback, hne, hsucc⟩
      · omega
      · have hclosed := hdead.closed u hu (ih u hu.le hne (by omega)) v hv
        rw [hstuck.pairV] at hclosed
        dsimp only at hclosed
        rw [hback] at hclosed
        exact hclosed hsucc
  exact hnil (hstuck.nil.symm.trans (hall _ g.nil le_rfl hnil rfl))

theorem BfsInv.searchable (hσ : Matched g σ) (h : BfsInv g σ dist []) :
    Searchable g True dist { σ with dist } where
  matched := ⟨hσ.pairU, hσ.pairV⟩
  le := h.le
  dead _ := by
    refine ⟨fun _ => .inl rfl, fun x _ hinf v _ hsucc => ?_⟩
    dsimp only at hinf hsucc
    have := h.le (σ.pairV v)
    omega

/-- If the dummy is out of reach, the matching cannot be extended. -/
theorem BfsInv.perfect_iff (hclosed : g.Closed) (hσ : Matched g σ) (h : BfsInv g σ dist [])
    (hnil : dist g.nil = inf) : (g.matchedNodes σ).card = g.length ↔ g.Perfect := by
  have hall : (g.matchedNodes σ).card = g.length ↔ g.matchedNodes σ = Finset.range g.length := by
    constructor
    · intro hcard
      refine Finset.eq_of_subset_of_card_le (Finset.filter_subset _ _) ?_
      rw [Finset.card_range, hcard]
    · intro heq
      rw [heq, Finset.card_range]
  rw [hall]
  refine ⟨perfect_of_matched hσ, fun hperfect => ?_⟩
  refine matchedNodes_of_closed hclosed hσ hperfect
    ((Finset.range g.length).filter fun u => dist u ≠ inf) (Finset.filter_subset _ _)
    (fun u hu hunil => ?_) fun u hu v hv => ?_
  · refine Finset.mem_filter.mpr ⟨Finset.mem_range.mpr hu, ?_⟩
    rw [h.unmatched u hu hunil]
    decide
  · obtain ⟨hu, hinf⟩ := Finset.mem_filter.mp hu
    have hback := h.closed hnil u (Finset.mem_range.mp hu) hinf List.not_mem_nil v hv
    have hne : σ.pairV v ≠ g.nil := fun heq => hback (heq ▸ hnil)
    refine Finset.mem_filter.mpr ⟨Finset.mem_range.mpr ?_, hback⟩
    exact lt_of_le_of_ne (hσ.pairV_le hclosed hv) hne

theorem card_matchedNodes_le (g : BipGraph) (σ : State) : (g.matchedNodes σ).card ≤ g.length :=
  (Finset.card_filter_le _ _).trans (Finset.card_range _).le

theorem matchLoop_spec (hn : g.length + 1 < inf) (hclosed : g.Closed) {fuel : ℕ}
    (hσ : Matched g σ) {m : ℕ} (hm : m = (g.matchedNodes σ).card) (hfuel : g.length < fuel + m) :
    ∃ m', g.matchLoop fuel σ m = some m' ∧ (m' = g.length ↔ g.Perfect) := by
  induction fuel generalizing σ m with
  | zero =>
    have := g.card_matchedNodes_le σ
    omega
  | succ fuel ih =>
    obtain ⟨dist, hbfs, hinv⟩ := bfs_spec hn hclosed hσ
    rw [matchLoop, hbfs]
    dsimp only
    split_ifs with hnil
    · exact ⟨m, rfl, hm ▸ hinv.perfect_iff hclosed hσ hnil⟩
    · obtain ⟨σ', m', hphase, hmatched, hcount, hmore⟩ :=
        phase_spec hclosed (fun u hu => List.mem_range.mp hu) (hinv.searchable hσ) m
      have hgrow : m < m' := by
        refine hmore.resolve_right fun hstuck => ?_
        exact not_stuck hinv hnil (fun u hu => List.mem_range.mpr hu) hstuck.2
      have hcard : g.matchedNodes { σ with dist } = g.matchedNodes σ := rfl
      rw [hcard] at hcount
      rw [hphase]
      exact ih hmatched (by omega) (by omega)

theorem matched_init (g : BipGraph) : Matched g g.init where
  pairU _ _ hne := absurd rfl hne
  pairV _ _ hne := absurd rfl hne

/-- `hopcroft_karp_can_match_all` finds out whether there is a perfect matching. -/
theorem canMatchAll_iff (hn : g.length + 1 < inf) (hclosed : g.Closed) :
    g.canMatchAll ↔ g.Perfect := by
  have hcard : 0 = (g.matchedNodes g.init).card := by
    rw [matchedNodes, Finset.filter_false_of_mem fun u _ hne => hne rfl, Finset.card_empty]
  obtain ⟨m, heq, hiff⟩ := matchLoop_spec hn hclosed g.matched_init hcard
    (Nat.lt_succ_self g.length)
  rw [canMatchAll, heq, beq_iff_eq, Option.some.injEq]
  exact hiff

end BipGraph

end Freeminer.Craft
