import Freeminer.Emerge.EmergeThread

/-! The map edit event that `EmergeThread::run` dispatches after an item, and whether it lists the
block that was emerged. -/

namespace Freeminer.Emerge

/-- The end of a pass of the loop: how it ended, the positions of the event that was dispatched, and the
`modified_blocks` that stay for the next pass. -/
structure Pass where
  ending : Ending
  event : Option (List BlockPos) := none
  modified_blocks : List BlockPos

namespace Calls

variable (c : Calls)

/-- Whether `run` has a block after the item. The overload of `getBlockOrStartGen` that it calls keeps
the block to itself, so that only `finishGen` gives one. -/
def hasBlock (action : EmergeAction) : Bool := action = .generated

/-- What `getBlockOrStartGen` decides, asked a second time with the data of the database. -/
def decided (allowGen : Bool) : Except Thrown EmergeAction :=
  c.getBlockOrStartGen allowGen none >>= fun action =>
    if action = .fromDisk then
      c.loadFromDb >>= fun databuf => c.getBlockOrStartGen allowGen (some databuf)
    else .ok action

/-- Whether the item gets as far as `finishBlockMake`. -/
def finishes (allowGen : Bool) : Bool :=
  match c.decided allowGen, c.makeChunk, c.onGenerated with
  | .ok action, .ok _, .ok fine => action = .generated && fine
  | _, _, _ => false

/-- A pass of the loop for an item, with what is in `modified_blocks` before; `made` is what
`finishBlockMake` adds to it, as far as it gets. -/
def pass (modified_blocks made : List BlockPos) (pos : BlockPos) (flags : UInt16) : Pass :=
  let finished := !blockposOverMaxLimit pos && c.finishes (flags &&& BLOCK_EMERGE_ALLOW_GEN != 0)
  let modified_blocks := if finished then modified_blocks ++ made else modified_blocks
  match runItem c pos flags with
  | .completed action =>
    let modified_blocks := if hasBlock action then modified_blocks ++ [pos] else modified_blocks
    { ending := .completed action
      event := if modified_blocks.isEmpty then none else some modified_blocks
      modified_blocks := [] }
  | ending => { ending, modified_blocks }

/-- The block is found with its nodes: in memory at the first look, or there at the second, or it is
loaded from the database. -/
def Found : Prop :=
  c.getBlock false = .ok (some true) ∨
    c.getBlock false = .ok none ∧ ∃ data, c.loadFromDb = .ok data ∧
      (c.getBlock true = .ok (some true) ∨
        c.getBlock true = .ok none ∧ data.isEmpty = false ∧ c.loadBlock data = .ok (some true) ∧
          c.prepareBlock = .ok ())

end Calls

def EmergeAction.Emerged (action : EmergeAction) : Prop :=
  action = .fromMemory ∨ action = .fromDisk ∨ action = .generated

/-- A pass that emerged the block at `pos` tells of it. -/
def Pass.Reports (p : Pass) (pos : BlockPos) : Prop :=
  ∀ action, p.ending = .completed action → action.Emerged →
    ∃ blocks, p.event = some blocks ∧ pos ∈ blocks

namespace Calls

variable {c : Calls} {allowGen : Bool} {pos : BlockPos} {flags : UInt16}
  {modified_blocks made : List BlockPos} {action : EmergeAction}

theorem bind_ok {E A B : Type} {x : Except E A} {f : A → Except E B} {b : B} :
    x >>= f = .ok b ↔ ∃ a, x = .ok a ∧ f a = .ok b := by
  cases x with
  | error e => simp [bind, Except.bind]
  | ok a => simp [bind, Except.bind]

theorem startGen_ne (h : c.startGen allowGen = .ok action) :
    action ≠ .fromMemory ∧ action ≠ .fromDisk := by
  unfold startGen at h
  split_ifs at h with hallow
  · obtain ⟨started, -, h⟩ := bind_ok.1 h
    cases started <;> cases h <;> simp
  · cases h
    simp

theorem generate_ne (h : c.generate = .ok action) :
    action ≠ .fromMemory ∧ action ≠ .fromDisk := by
  obtain ⟨-, -, h⟩ := bind_ok.1 h
  obtain ⟨fine, -, h⟩ := bind_ok.1 h
  split_ifs at h with hfine
  · obtain ⟨found, -, h⟩ := bind_ok.1 h
    cases found <;> cases h <;> simp
  · obtain ⟨-, -, h⟩ := bind_ok.1 h
    cases h
    simp

theorem getBlockOrStartGen_none (h : c.getBlockOrStartGen allowGen none = .ok action) :
    (action = .fromMemory ↔ c.getBlock false = .ok (some true)) ∧
      (action = .fromDisk ↔ c.getBlock false = .ok none) := by
  obtain ⟨block, hblock, h⟩ := bind_ok.1 h
  simp only [Option.isSome_none] at hblock
  rw [hblock]
  match block with
  | some true =>
    cases h
    simp
  | some false =>
    have hne := startGen_ne h
    simp [hne.1, hne.2]
  | none =>
    cases h
    simp

theorem getBlockOrStartGen_some {data : ByteString}
    (h : c.getBlockOrStartGen allowGen (some data) = .ok action) :
    (action = .fromMemory ↔ c.getBlock true = .ok (some true)) ∧
      (action = .fromDisk ↔ c.getBlock true = .ok none ∧ data.isEmpty = false ∧
        c.loadBlock data = .ok (some true) ∧ c.prepareBlock = .ok ()) := by
  obtain ⟨block, hblock, h⟩ := bind_ok.1 h
  simp only [Option.isSome_some] at hblock
  rw [hblock]
  match block with
  | some true =>
    cases h
    simp
  | some false =>
    have hne := startGen_ne h
    simp [hne.1, hne.2]
  | none =>
    simp only at h
    split_ifs at h with hempty
    · have hne := startGen_ne h
      simp [hne.1, hne.2, hempty]
    · obtain ⟨loaded, hloaded, h⟩ := bind_ok.1 h
      rw [hloaded]
      split_ifs at h with hfine
      · obtain ⟨u, hprepared, h⟩ := bind_ok.1 h
        cases h
        simp [hfine, hprepared, hempty]
      · have hne := startGen_ne h
        simp [hne.1, hne.2, hfine]

/-- The two looks give a block exactly when it is found. -/
theorem decided_found (h : c.decided allowGen = .ok action) :
    (action = .fromMemory ∨ action = .fromDisk) ↔ c.Found := by
  obtain ⟨first, hfirst, h⟩ := bind_ok.1 h
  have hlook := getBlockOrStartGen_none hfirst
  split_ifs at h with hdisk
  · obtain ⟨data, hdata, h⟩ := bind_ok.1 h
    have hsecond := getBlockOrStartGen_some h
    have hnone := hlook.2.1 hdisk
    rw [hsecond.1, hsecond.2]
    simp [Found, hnone, hdata]
  · cases h
    have hsome : c.getBlock false ≠ .ok none := fun hnone => hdisk (hlook.2.2 hnone)
    rw [or_iff_left hdisk, hlook.1, Found]
    simp [hsome]

theorem process_ok (h : c.process allowGen = .ok action) :
    ∃ first, c.decided allowGen = .ok first ∧
      (if first = .generated then c.generate else .ok first) = .ok action := by
  obtain ⟨first, hfirst, h⟩ := bind_ok.1 h
  obtain ⟨second, hsecond, h⟩ := bind_ok.1 h
  exact ⟨second, bind_ok.2 ⟨first, hfirst, hsecond⟩, h⟩

/-- Generation gives neither of the other two results. -/
theorem process_found (h : c.process allowGen = .ok action) :
    (action = .fromMemory ∨ action = .fromDisk) ↔ c.Found := by
  obtain ⟨first, hfirst, h⟩ := process_ok h
  rw [← decided_found hfirst]
  split_ifs at h with hgenerated
  · have hne := generate_ne h
    simp [hgenerated, hne.1, hne.2]
  · cases h
    rfl

/-- What is found ends the item, and nothing is finished. -/
theorem Found.process (h : c.Found) (allowGen : Bool) :
    (∃ action, c.process allowGen = .ok action ∧ (action = .fromMemory ∨ action = .fromDisk)) ∧
      c.finishes allowGen = false := by
  have hdecided : ∃ action, c.decided allowGen = .ok action ∧
      (action = .fromMemory ∨ action = .fromDisk) := by
    rcases h with hfirst | ⟨hfirst, data, hdata, hsecond | ⟨hsecond, hempty, hload, hprepare⟩⟩
    · exact ⟨.fromMemory, by simp [decided, getBlockOrStartGen, hfirst, bind, Except.bind], by simp⟩
    · exact ⟨.fromMemory,
        by simp [decided, getBlockOrStartGen, hfirst, hdata, hsecond, bind, Except.bind], by simp⟩
    · exact ⟨.fromDisk, by simp [decided, getBlockOrStartGen, hfirst, hdata, hsecond, hempty, hload,
        hprepare, bind, Except.bind], by simp⟩
  obtain ⟨action, haction, hfound⟩ := hdecided
  have hne : action ≠ .generated := by rcases hfound with rfl | rfl <;> simp
  constructor
  · refine ⟨action, ?_, hfound⟩
    obtain ⟨first, hfirst, hsecond⟩ := bind_ok.1 haction
    refine bind_ok.2 ⟨first, hfirst, bind_ok.2 ⟨action, hsecond, ?_⟩⟩
    rw [if_neg hne]
  · unfold finishes
    rw [haction]
    cases c.makeChunk <;> cases c.onGenerated <;> simp [hne]

/-- A pass that generated the block lists it. -/
theorem pass_generated (h : runItem c pos flags = .completed .generated) :
    ∃ blocks, (c.pass modified_blocks made pos flags).event = some blocks ∧ pos ∈ blocks := by
  simp only [pass, h, hasBlock, decide_true, if_true]
  refine ⟨_, if_neg ?_, by simp⟩
  simp

theorem pass_ending : (c.pass modified_blocks made pos flags).ending = runItem c pos flags := by
  unfold pass
  cases runItem c pos flags <;> rfl

/-- A pass for a block that was found lists what an earlier pass left and nothing else. -/
theorem pass_found (modified_blocks made : List BlockPos) (flags : UInt16)
    (hlimit : blockposOverMaxLimit pos = false) (h : c.Found) :
    ∃ action, (c.pass modified_blocks made pos flags).ending = .completed action ∧
      action.Emerged ∧
      (c.pass modified_blocks made pos flags).event =
        if modified_blocks.isEmpty then none else some modified_blocks := by
  obtain ⟨⟨action, haction, hfound⟩, hfinishes⟩ :=
    h.process (flags &&& BLOCK_EMERGE_ALLOW_GEN != 0)
  have hrun : runItem c pos flags = .completed action := by simp [runItem, hlimit, haction]
  have hhas : hasBlock action = false := by rcases hfound with rfl | rfl <;> rfl
  refine ⟨action, ?_, ?_, ?_⟩
  · rw [pass_ending, hrun]
  · rcases hfound with rfl | rfl
    · exact .inl rfl
    · exact .inr (.inl rfl)
  · simp [pass, hrun, hfinishes, hhas]

/-- An item that ended with a block that was not found was generated. -/
theorem generated_of_not_found (hlimit : blockposOverMaxLimit pos = true ∨ ¬c.Found)
    (hrun : runItem c pos flags = .completed action) (h : action.Emerged) :
    action = .generated := by
  unfold runItem at hrun
  split_ifs at hrun with hover
  have hnot : ¬c.Found := hlimit.resolve_left hover
  cases hprocess : c.process (flags &&& BLOCK_EMERGE_ALLOW_GEN != 0) with
  | error e =>
    rw [hprocess] at hrun
    cases hrun
  | ok done =>
    rw [hprocess] at hrun
    cases hrun
    have hfound := (process_found hprocess).not.2 hnot
    rcases h with h | h | h
    · exact absurd (.inl h) hfound
    · exact absurd (.inr h) hfound
    · exact h

/-- What a pass tells of: a block that was generated, and one that was found only where an earlier pass
broke off and left its position behind. -/
theorem pass_reports_iff :
    (c.pass modified_blocks made pos flags).Reports pos ↔
      pos ∈ modified_blocks ∨ blockposOverMaxLimit pos = true ∨ ¬c.Found := by
  constructor
  · intro h
    by_contra hno
    push Not at hno
    obtain ⟨hleft, hlimit, hfound⟩ := hno
    obtain ⟨action, hending, hemerged, hevent⟩ :=
      pass_found modified_blocks made flags (Bool.eq_false_iff.2 hlimit) hfound
    obtain ⟨blocks, hblocks, hpos⟩ := h action hending hemerged
    rw [hevent] at hblocks
    split_ifs at hblocks with hempty
    cases hblocks
    exact hleft hpos
  · intro h action hending hemerged
    rw [pass_ending] at hending
    by_cases hfound : blockposOverMaxLimit pos = true ∨ ¬c.Found
    · have hgenerated := generated_of_not_found hfound hending hemerged
      rw [hgenerated] at hending
      exact pass_generated hending
    · have hleft := h.resolve_right hfound
      push Not at hfound
      obtain ⟨_, -, -, hevent⟩ :=
        pass_found modified_blocks made flags (Bool.eq_false_iff.2 hfound.1) hfound.2
      refine ⟨modified_blocks, ?_, hleft⟩
      rw [hevent, if_neg]
      intro hempty
      rw [List.isEmpty_iff.1 hempty] at hleft
      simp at hleft

def inMemory : Calls where
  getBlock _ := .ok (some true)
  loadFromDb := .ok []
  loadBlock _ := .ok none
  prepareBlock := .ok ()
  initBlockMake := .ok false
  makeChunk := .ok ()
  onGenerated := .ok true
  finishGen := .ok true
  cancelBlockMake := .ok ()

theorem not_pass_reports :
    ¬∀ (c : Calls) (made : List BlockPos) (pos : BlockPos) (flags : UInt16),
      (c.pass [] made pos flags).Reports pos := by
  intro h
  obtain ⟨blocks, hblocks, -⟩ := h inMemory [] ⟨0, 0, 0⟩ 0 .fromMemory rfl (.inl rfl)
  cases hblocks

end Calls

end Freeminer.Emerge
