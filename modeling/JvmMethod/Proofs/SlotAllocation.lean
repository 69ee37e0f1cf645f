import JvmMethod.Proofs.ChainRequests

/-!
# Taking a slot from any builder of a chain

A builder that is asked for a local slot passes the question down to the nearest
counter: the next free slot of a block, or of the terminal if there is no block
below.  A builder that is asked for its next free slot does the same.  These are
two different walks down the chain, and every layer answers either of them in its
own way.

Builders are told by their *depth*: the uppermost one is at depth zero.

* `Chain.counterPlace`: the depth of the nearest counter.
* `Chain.allocate_at_every_depth`: both walks end at the same counter.  A slot
  that is handed out is the next free one, it is refused when there is no room
  behind it, and nothing but the counter changes.
-/

namespace JvmMethod

variable {ω α : Type}

/-- The terminal with its counter moved to a slot.  A direct terminal also notes
that it needs all slots below it; elements, code and labels stay. -/
def Terminal.withCounter (next : Slot) : Terminal → Terminal
  | .direct state =>
      .direct
        { state with
          topLocal := next, maxLocals := max state.maxLocals next.toNat }
  | .buffered state => .buffered { state with topLocal := next }

theorem Terminal.topLocal_withCounter (terminal : Terminal) (next : Slot) :
    (terminal.withCounter next).topLocal = next := by
  cases terminal <;> rfl

/-- A terminal hands out its next free slot, and moves its counter. -/
theorem Terminal.allocate_eq (terminal : Terminal) (kind : Kind) :
    terminal.allocate kind =
      match claimSlot terminal.topLocal kind with
      | .error fault => (.error fault, terminal)
      | .ok next => (.ok terminal.topLocal, terminal.withCounter next) := by
  cases terminal with
  | direct state =>
    simp only [allocate, Direct.allocate, topLocal]
    cases claimSlot state.topLocal kind <;> rfl
  | buffered state =>
    simp only [allocate, Buffered.allocate, topLocal]
    cases claimSlot state.topLocal kind <;> rfl

namespace Chain

/-- Does something with the builder at a depth.  What is above it stays. -/
def runAt : Nat → Chain ω → {α : Type} → Script ω α → ω →
    Option (α × Chain ω × ω)
  | 0, chain, _, script, ambient => some (chain.run script ambient)
  | _ + 1, .terminal _, _, _, _ => none
  | depth + 1, .block opened below, _, script, ambient =>
      (runAt depth below script ambient).map fun (result, below, ambient) =>
        (result, .block opened below, ambient)
  | depth + 1, .transform layer stage below, _, script, ambient =>
      (runAt depth below script ambient).map fun (result, below, ambient) =>
        (result, .transform layer stage below, ambient)

/-- The depth of the nearest block at a depth or below, or of the terminal if
there is none. -/
def counterPlace (chain : Chain ω) (depth : Nat) : Nat :=
  depth + (chain.outline.drop depth).findIdx Option.isSome

/-- The chain with the counter at a depth moved to a slot. -/
def withCounter (next : Slot) : Nat → Chain ω → Chain ω
  | 0, .terminal state => .terminal (state.withCounter next)
  | 0, .block opened below => .block { opened with topLocal := next } below
  | 0, .transform layer stage below => .transform layer stage below
  | _ + 1, .terminal state => .terminal state
  | place + 1, .block opened below => .block opened (withCounter next place below)
  | place + 1, .transform layer stage below =>
      .transform layer stage (withCounter next place below)

section Place

variable (state : Terminal) (opened : Block) (layer : Layer) (stage : Transform ω)
  (below : Chain ω) (depth : Nat)

@[simp] theorem counterPlace_terminal :
    (terminal state : Chain ω).counterPlace 0 = 0 := rfl

@[simp] theorem counterPlace_block : (block opened below).counterPlace 0 = 0 := rfl

@[simp] theorem counterPlace_transform :
    (transform layer stage below).counterPlace 0 = below.counterPlace 0 + 1 := by
  simp [counterPlace, outline, List.findIdx_cons]

@[simp] theorem counterPlace_block_succ :
    (block opened below).counterPlace (depth + 1) =
      below.counterPlace depth + 1 := by
  simp only [counterPlace, outline, List.drop_succ_cons]
  omega

@[simp] theorem counterPlace_transform_succ :
    (transform layer stage below).counterPlace (depth + 1) =
      below.counterPlace depth + 1 := by
  simp only [counterPlace, outline, List.drop_succ_cons]
  omega

end Place

/-- Moving one counter moves no other. -/
theorem outline_withCounter (chain : Chain ω) (next : Slot) {place other : Nat}
    (h : other ≠ place) :
    (withCounter next place chain).outline[other]? = chain.outline[other]? := by
  induction chain generalizing place other with
  | terminal state =>
    cases place with
    | zero =>
      obtain ⟨other, rfl⟩ := Nat.exists_eq_succ_of_ne_zero h
      rfl
    | succ place => rfl
  | block opened below ih =>
    cases place with
    | zero =>
      obtain ⟨other, rfl⟩ := Nat.exists_eq_succ_of_ne_zero h
      rfl
    | succ place =>
      cases other with
      | zero => rfl
      | succ other => exact ih (by omega)
  | transform layer stage below ih =>
    cases place with
    | zero => rfl
    | succ place =>
      cases other with
      | zero => rfl
      | succ other => exact ih (by omega)

/-- The uppermost builder takes a slot from the nearest counter. -/
theorem allocate_eq (chain : Chain ω) (kind : Kind) :
    chain.allocate kind =
      match claimSlot chain.topLocal kind with
      | .error fault => (.error fault, chain)
      | .ok next =>
          (.ok chain.topLocal, withCounter next (chain.counterPlace 0) chain) := by
  induction chain with
  | terminal state =>
    simp only [allocate, state.allocate_eq, topLocal]
    cases claimSlot state.topLocal kind <;> rfl
  | block opened below ih =>
    simp only [allocate, Block.allocate, topLocal]
    cases claimSlot opened.topLocal kind <;> rfl
  | transform layer stage below ih =>
    simp only [allocate, ih, topLocal, counterPlace_transform]
    cases claimSlot below.topLocal kind <;> rfl

/-- The walk to the next free slot of the uppermost builder ends at the nearest
counter. -/
theorem topLocal_withCounter (chain : Chain ω) (next : Slot) :
    (withCounter next (chain.counterPlace 0) chain).topLocal = next := by
  induction chain with
  | terminal state => exact state.topLocal_withCounter next
  | block opened below ih => rfl
  | transform layer stage below ih => simpa [withCounter, topLocal] using ih

/-- Wherever a builder stands, there is a next free slot that it tells of and
hands out. -/
theorem runAt_allocate {chain : Chain ω} {depth : Nat}
    (hdepth : depth < chain.outline.length) (ambient : ω) :
    ∃ top : Slot,
      runAt depth chain (.send .topLocal) ambient = some (top, chain, ambient) ∧
      (∀ kind, runAt depth chain (.send (.allocate kind)) ambient =
        some (match claimSlot top kind with
          | .error fault => (.error fault, chain, ambient)
          | .ok next =>
              (.ok top, withCounter next (chain.counterPlace depth) chain,
                ambient))) ∧
      ∀ next,
        runAt depth (withCounter next (chain.counterPlace depth) chain)
            (.send .topLocal) ambient =
          some (next, withCounter next (chain.counterPlace depth) chain,
            ambient) := by
  induction depth generalizing chain with
  | zero =>
    refine ⟨chain.topLocal, ?_, ?_, ?_⟩
    · exact congrArg some (chain.run_topLocal ambient)
    · intro kind
      refine congrArg some ((chain.run_allocate ambient kind).trans ?_)
      rw [allocate_eq]
      cases claimSlot chain.topLocal kind <;> rfl
    · intro next
      refine congrArg some ((run_topLocal _ ambient).trans ?_)
      rw [topLocal_withCounter]
  | succ depth ih =>
    cases chain with
    | terminal state => simp [outline] at hdepth
    | block opened below | transform layer stage below =>
      obtain ⟨top, htop, hallocate, hnext⟩ :=
        @ih below (by simpa [outline] using hdepth)
      refine ⟨top, ?_, ?_, ?_⟩
      · simp only [runAt, htop, Option.map_some]
      · intro kind
        simp only [runAt, hallocate, Option.map_some, counterPlace_block_succ,
          counterPlace_transform_succ]
        cases claimSlot top kind <;> rfl
      · intro next
        simp only [counterPlace_block_succ, counterPlace_transform_succ,
          withCounter, runAt, hnext, Option.map_some]

/-- **A slot is taken where the next free slot is told from**, at every depth of
every chain.  Nothing is there for the void kind, and there is no room exactly if
the value would end behind slot 65535; then nothing changes.  Otherwise the next
free slot is handed out and the counter moves behind the value, and no other
counter moves. -/
theorem allocate_at_every_depth {chain : Chain ω} {depth : Nat}
    (hdepth : depth < chain.outline.length) (kind : Kind) (ambient : ω) :
    ∃ top : Slot,
      runAt depth chain (.send .topLocal) ambient = some (top, chain, ambient) ∧
      (kind = .void →
        runAt depth chain (.send (.allocate kind)) ambient =
          some (.error .voidLocal, chain, ambient)) ∧
      (kind ≠ .void → 65535 < top.toNat + kind.width →
        runAt depth chain (.send (.allocate kind)) ambient =
          some (.error .localsOverflow, chain, ambient)) ∧
      (kind ≠ .void → top.toNat + kind.width ≤ 65535 →
        ∃ (next : Slot) (after : Chain ω),
          next.toNat = top.toNat + kind.width ∧
          after = withCounter next (chain.counterPlace depth) chain ∧
          runAt depth chain (.send (.allocate kind)) ambient =
            some (.ok top, after, ambient) ∧
          runAt depth after (.send .topLocal) ambient =
            some (next, after, ambient) ∧
          ∀ other, other ≠ chain.counterPlace depth →
            after.outline[other]? = chain.outline[other]?) := by
  obtain ⟨top, htop, hallocate, hnext⟩ := runAt_allocate hdepth ambient
  have hallocate := hallocate kind
  refine ⟨top, htop, ?_, ?_, ?_⟩
  · rintro rfl
    simpa [claimSlot] using hallocate
  · intro hvalue hover
    have hclaim : claimSlot top kind = .error .localsOverflow := by
      rw [claimSlot, if_neg hvalue, if_neg (by omega)]
    simpa [hclaim] using hallocate
  · intro hvalue hroom
    obtain ⟨next, hclaim⟩ : ∃ next, claimSlot top kind = .ok next := by
      rw [claimSlot, if_neg hvalue, if_pos hroom]
      exact ⟨_, rfl⟩
    refine ⟨next, _, toNat_of_claimSlot hclaim, rfl, ?_, hnext next, ?_⟩
    · simpa [hclaim] using hallocate
    · exact fun other hother => outline_withCounter chain next hother

/-- A block between two transforms, over a terminal of which nearly all slots are
taken. -/
def mixedChain : Chain Unit :=
  .transform .chained .acceptAll
    (.block
      { startLabel := ⟨0⟩, stopLabel := ⟨1⟩, breakLabel := ⟨2⟩, topLocal := 40
        terminalTop := 65533 }
      (.transform .chained .acceptAll
        (.terminal (.direct (.withInitialLocals 65533)))))

/-- Below the block the terminal's counter is the nearest one, and there is room
for one wide value. -/
theorem mixedChain_allocates :
    2 < mixedChain.outline.length ∧ mixedChain.counterPlace 2 = 3 ∧
      ∃ (next : Slot) (after : Chain Unit),
        next.toNat = 65535 ∧ after = withCounter next 3 mixedChain ∧
        runAt 2 mixedChain (.send (.allocate .long)) () =
          some (.ok 65533, after, ()) ∧
        runAt 2 after (.send .topLocal) () = some (next, after, ()) ∧
        ∀ other, other ≠ 3 → after.outline[other]? = mixedChain.outline[other]? := by
  have hdepth : 2 < mixedChain.outline.length := by decide
  refine ⟨hdepth, rfl, ?_⟩
  obtain ⟨top, htop, -, -, hroom⟩ := allocate_at_every_depth hdepth .long ()
  have hsame : some (top, mixedChain, ()) = some (65533, mixedChain, ()) :=
    htop.symm.trans rfl
  obtain rfl : top = 65533 := (Prod.mk.inj (Option.some.inj hsame)).1
  exact hroom (by decide) (by decide)

end Chain

end JvmMethod
