import JvmMethod.Proofs.BlockReachability
import JvmMethod.Proofs.EmittedLabels

/-!
# What structured code emits

A block, and either kind of conditional, on a stack of blocks: what arrives is
what arrives from the bodies, between labels that are new and with branches to
them.  Nothing is asked of the bodies, but that they succeed.

* `BlockStack.WorksInside` says of a body what arrives from it, and that its
  labels are new.
* `Yields.of_block`, `Yields.of_ifThen` and `Yields.of_ifThenElse` say what
  arrives, and where it leads.  The first arm of `Build.ifThenElse` ends with a
  jump exactly if its block has seen its end reachable.
-/

namespace JvmMethod

variable {ω α : Type}

/-- What arrives of the jump over the other arm, if there is one. -/
def jumpArrivals (reachable : Bool) (breakLabel : Label) : List Arrival :=
  if reachable then [.through (.branch (.goto breakLabel))] else []

namespace BlockStack

/-- How many labels are known. -/
def known (stack : BlockStack) : Nat :=
  stack.terminal.labels.size

/-- The body has been run somewhere inside, and what arrived from it; when it
began there were `low` labels at least, and `high` at most when it was done. -/
def WorksInside (body : Build ω Unit) (low : Nat) (ambient : ω)
    (inner : List Arrival) (high : Nat) (later : ω) : Prop :=
  ∃ opened closed : BlockStack, opened.Yields ambient body () inner closed later ∧
    low ≤ opened.known ∧ closed.known ≤ high

variable {stack after : BlockStack} {ambient later : ω} {came : List Arrival}
  {block last : Block} {startLabel breakLabel : Label} {body : Build ω Unit}
  {condition : Condition}

theorem Yields.grows {build : Build ω α} {result : α}
    (h : stack.Yields ambient build result came after later) :
    stack.terminal.labels.Grows (placedLabels came) after.terminal.labels := by
  have hgrows := grows_run build.run stack ambient
  rwa [h.run_eq, h.arrivals_eq] at hgrows

theorem Yields.known_le {build : Build ω α} {result : α}
    (h : stack.Yields ambient build result came after later) :
    stack.known ≤ after.known :=
  h.grows.size_le

/-- A fresh label has the number of labels that were known. -/
theorem Yields.of_freshLabel_known {label : Label}
    (h : stack.Yields ambient Build.freshLabel label came after later) :
    label = ⟨stack.known⟩ ∧ came = [] ∧ after.known = stack.known + 1 ∧
      later = ambient := by
  obtain ⟨rfl, rfl, rfl, rfl⟩ := h.of_freshLabel
  obtain ⟨hlabel, hlabels⟩ := stack.terminal.freshLabel_eq
  refine ⟨hlabel, rfl, ?_, rfl⟩
  simp [known, hlabels]

/-- The block has just been opened, when `known` labels were known. -/
structure Opens (known : Nat) (startLabel breakLabel : Label) (block : Block)
    (came : List Arrival) : Prop where
  start_eq : block.startLabel = startLabel
  stop_eq : block.stopLabel = ⟨known⟩
  break_eq : block.breakLabel = breakLabel
  reachable : block.reachable = true
  came_eq : came = [.past (.label startLabel)]

theorem Yields.opens_at
    (h : stack.Yields ambient (Build.openBlockAt startLabel breakLabel) block came
      after later) :
    Opens stack.known startLabel breakLabel block came ∧
      stack.known + 1 ≤ after.known ∧ later = ambient := by
  obtain ⟨terminal, hpush, rfl, rfl, rfl, rfl⟩ := h.of_openBlockAt
  obtain ⟨hlabel, hlabels⟩ := stack.terminal.freshLabel_eq
  refine ⟨⟨rfl, hlabel, rfl, rfl, rfl⟩, ?_, rfl⟩
  rcases stack.terminal.freshLabel.2.push_cases (.label startLabel) with
    ⟨fault, next, herror, -⟩ | ⟨next, hok, hgrows⟩
  · rw [hpush] at herror
    cases herror
  · rw [hpush] at hok
    cases hok
    have hsize := hgrows.size_le
    rw [hlabels, LabelTable.size_fresh] at hsize
    exact hsize

theorem Yields.opens
    (h : stack.Yields ambient (Build.openBlock breakLabel) block came after
      later) :
    Opens (stack.known + 1) ⟨stack.known⟩ breakLabel block came ∧
      stack.known + 2 ≤ after.known ∧ later = ambient := by
  obtain ⟨_, _, _, _, _, hfresh, hopen, rfl⟩ := h.of_bind
  obtain ⟨rfl, rfl, hknown, rfl⟩ := hfresh.of_freshLabel_known
  obtain ⟨hopens, hmore, rfl⟩ := hopen.opens_at
  rw [hknown] at hopens hmore
  exact ⟨hopens, hmore, rfl⟩

/-- The body of a block. -/
theorem Yields.worksInside
    (h : stack.Yields ambient (Build.within block body) ((), last) came after
      later) : WorksInside body stack.known ambient came after.known later :=
  ⟨_, _, h.of_within, Nat.le_refl _, Nat.le_refl _⟩

theorem WorksInside.mono {low low' high high' : Nat} {inner : List Arrival}
    (h : WorksInside body low ambient inner high later) (hlow : low' ≤ low)
    (hhigh : high ≤ high') :
    WorksInside body low' ambient inner high' later := by
  obtain ⟨opened, closed, hyields, hopened, hclosed⟩ := h
  exact ⟨opened, closed, hyields, Nat.le_trans hlow hopened,
    Nat.le_trans hclosed hhigh⟩

/-- The body of a block that begins with a branch. -/
theorem WorksInside.of_branch {target : Label} {low high : Nat}
    (h : WorksInside (do Build.branch condition target; body) low ambient came high
      later) :
    ∃ inner, came = .through (.branch (.test condition target)) :: inner ∧
      WorksInside body low ambient inner high later := by
  obtain ⟨opened, closed, hyields, hopened, hclosed⟩ := h
  obtain ⟨_, _, _, _, inner, hbranch, hbody, rfl⟩ := hyields.of_bind
  have hknown := hbranch.known_le
  obtain ⟨terminal, _, rfl, rfl, rfl⟩ := hbranch.of_push
  exact ⟨inner, rfl, _, closed, hbody, Nat.le_trans hopened hknown, hclosed⟩

/-- What arrives from a block. -/
theorem Yields.of_block
    (h : stack.Yields ambient (Build.block body) () came after later) :
    ∃ inner, came = .past (.label ⟨stack.known + 1⟩) :: (inner ++
        [.past (.label ⟨stack.known + 2⟩), .through (.label ⟨stack.known⟩)]) ∧
      WorksInside body (stack.known + 3) ambient inner after.known later := by
  obtain ⟨_, _, _, _, _, hfresh, h₁, rfl⟩ := h.of_bind
  obtain ⟨rfl, rfl, hknown, rfl⟩ := hfresh.of_freshLabel_known
  obtain ⟨block, _, _, _, _, hopen, h₂, rfl⟩ := h₁.of_bind
  obtain ⟨hopens, hmore, rfl⟩ := hopen.opens
  obtain ⟨⟨⟨⟩, last⟩, inner, _, _, _, hwithin, h₃, rfl⟩ := h₂.of_bind
  obtain ⟨summary, _, _, _, _, hclose, hplace, rfl⟩ := h₃.of_bind
  have hbecomes := hwithin.of_within_becomes.2
  have hclosed := hclose.known_le
  have hplaced := hplace.known_le
  obtain ⟨_, _, rfl, rfl, rfl, rfl⟩ := hclose.of_closeBlock
  obtain ⟨_, _, rfl, rfl, rfl⟩ := hplace.of_push
  rw [hknown] at hopens hmore
  refine ⟨inner, ?_, hwithin.worksInside.mono (by omega) (by omega)⟩
  simp [hopens.came_eq, hbecomes.stopLabel, hopens.stop_eq]

/-- What arrives from a conditional with one arm. -/
theorem Yields.of_ifThen
    (h : stack.Yields ambient (Build.ifThen condition body) () came after later) :
    ∃ inner, came = .past (.label ⟨stack.known + 1⟩) ::
        .through (.branch (.test condition.negate ⟨stack.known⟩)) :: (inner ++
        [.past (.label ⟨stack.known + 2⟩), .through (.label ⟨stack.known⟩)]) ∧
      WorksInside body (stack.known + 3) ambient inner after.known later := by
  obtain ⟨_, _, _, _, _, hfresh, h₁, rfl⟩ := h.of_bind
  obtain ⟨rfl, rfl, hknown, rfl⟩ := hfresh.of_freshLabel_known
  obtain ⟨block, _, _, _, _, hopen, h₂, rfl⟩ := h₁.of_bind
  obtain ⟨hopens, hmore, rfl⟩ := hopen.opens
  obtain ⟨⟨⟨⟩, last⟩, _, _, _, _, hwithin, h₃, rfl⟩ := h₂.of_bind
  obtain ⟨summary, _, _, _, _, hclose, hplace, rfl⟩ := h₃.of_bind
  have hbecomes := hwithin.of_within_becomes.2
  have hclosed := hclose.known_le
  have hplaced := hplace.known_le
  obtain ⟨inner, rfl, hinner⟩ := hwithin.worksInside.of_branch
  obtain ⟨_, _, rfl, rfl, rfl, rfl⟩ := hclose.of_closeBlock
  obtain ⟨_, _, rfl, rfl, rfl⟩ := hplace.of_push
  rw [hknown] at hopens hmore
  refine ⟨inner, ?_, hinner.mono (by omega) (by omega)⟩
  simp [hopens.came_eq, hbecomes.stopLabel, hopens.stop_eq]

/-- The jump at the end of the first arm. -/
theorem Yields.of_jump {reachable : Bool}
    (h : stack.Yields ambient
      (Build.within block (if reachable then Build.goto breakLabel else pure ()))
      ((), last) came after later) :
    came = jumpArrivals reachable breakLabel ∧
      last.stopLabel = block.stopLabel ∧ later = ambient := by
  obtain ⟨hbody, hbecomes⟩ := h.of_within_becomes
  cases reachable with
  | true =>
    obtain ⟨_, _, rfl, -, rfl⟩ := hbody.of_push
    exact ⟨rfl, hbecomes.stopLabel, rfl⟩
  | false =>
    obtain ⟨-, rfl, -, rfl⟩ := hbody.of_pure
    exact ⟨rfl, hbecomes.stopLabel, rfl⟩

/-- **What arrives from a conditional with two arms.** -/
theorem Yields.of_ifThenElse {thenBody elseBody : Build ω Unit}
    (h : stack.Yields ambient (Build.ifThenElse condition thenBody elseBody) () came
      after later) :
    ∃ thenInner elseInner elseStop between, came =
        .past (.label ⟨stack.known + 2⟩) ::
        .through (.branch (.test condition.negate ⟨stack.known + 1⟩)) ::
        (thenInner ++
          jumpArrivals (thenInner.foldl Arrival.seen true) ⟨stack.known⟩ ++
          .past (.label ⟨stack.known + 3⟩) ::
          .past (.label ⟨stack.known + 1⟩) ::
          (elseInner ++
            [.past (.label elseStop), .through (.label ⟨stack.known⟩)])) ∧
      stack.known + 4 ≤ elseStop.index ∧
      WorksInside thenBody (stack.known + 4) ambient thenInner elseStop.index
        between ∧
      WorksInside elseBody (elseStop.index + 1) between elseInner after.known
        later := by
  obtain ⟨_, _, _, _, _, hfirst, h₁, rfl⟩ := h.of_bind
  obtain ⟨rfl, rfl, hknown₁, rfl⟩ := hfirst.of_freshLabel_known
  obtain ⟨_, _, _, _, _, hsecond, h₂, rfl⟩ := h₁.of_bind
  obtain ⟨rfl, rfl, hknown₂, rfl⟩ := hsecond.of_freshLabel_known
  obtain ⟨thenBlock, _, _, _, _, hopen, h₃, rfl⟩ := h₂.of_bind
  obtain ⟨hopens, hmore, rfl⟩ := hopen.opens
  obtain ⟨⟨⟨⟩, worked⟩, _, _, _, _, hwithin, h₄, rfl⟩ := h₃.of_bind
  obtain ⟨⟨⟨⟩, jumped⟩, _, _, _, _, hjump, h₅, rfl⟩ := h₄.of_bind
  obtain ⟨_, _, _, _, _, hclose, h₆, rfl⟩ := h₅.of_bind
  obtain ⟨elseBlock, _, _, _, _, hopenElse, h₇, rfl⟩ := h₆.of_bind
  obtain ⟨⟨⟨⟩, last⟩, elseInner, _, _, _, hwithinElse, h₈, rfl⟩ := h₇.of_bind
  obtain ⟨_, _, _, _, _, hcloseElse, hplace, rfl⟩ := h₈.of_bind
  have hbecomes := hwithin.of_within_becomes.2
  have hbecomesElse := hwithinElse.of_within_becomes.2
  -- labels are only ever added
  have hworked := hwithin.known_le
  have hjumped := hjump.known_le
  have hclosed := hclose.known_le
  have hclosedElse := hcloseElse.known_le
  have hplaced := hplace.known_le
  obtain ⟨thenInner, rfl, hthen⟩ := hwithin.worksInside.of_branch
  have helse := hwithinElse.worksInside
  obtain ⟨hopensElse, hmoreElse, rfl⟩ := hopenElse.opens_at
  obtain ⟨rfl, hstop, rfl⟩ := hjump.of_jump
  obtain ⟨_, _, rfl, rfl, rfl, rfl⟩ := hclose.of_closeBlock
  obtain ⟨_, _, rfl, rfl, rfl, rfl⟩ := hcloseElse.of_closeBlock
  obtain ⟨_, _, rfl, rfl, rfl⟩ := hplace.of_push
  have hreachable : worked.reachable = thenInner.foldl Arrival.seen true := by
    rw [hbecomes.reachable, hopens.reachable]
    rfl
  rw [hknown₁] at hknown₂ hopensElse
  rw [hknown₂] at hopens hmore
  have helseStop := congrArg Label.index hopensElse.stop_eq
  simp only at helseStop
  refine ⟨thenInner, elseInner, elseBlock.stopLabel, _, ?_, by omega,
    hthen.mono (by omega) (by omega), helse.mono (by omega) (by omega)⟩
  simp [hopens.came_eq, hopensElse.came_eq, hstop, hbecomes.stopLabel,
    hopens.stop_eq, hbecomesElse.stopLabel, hreachable, hknown₁]

end BlockStack

end JvmMethod
