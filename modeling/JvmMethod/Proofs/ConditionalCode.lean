import JvmMethod.Proofs.BlockReachability

/-!
# The code of conditionals

An execution of code is a sequence of moments, each with a position and an
operand stack.  Conditions are evaluated on the stack; what other instructions
do to it is left open, and so is what a switch finds.

A conditional is lowered to a branch on the negated condition, over the code of
its first arm.  `Lowering.decides` says that this is right: the branch is taken
the right way, and from there on execution keeps to one arm until it comes to
the break label, or leaves.  What it takes is that labels are placed once, that
the first of two arms does not run into the second one, and that neither arm
branches into the other or to a delimiter of the construct.
-/

namespace JvmMethod

/-- A value on the operand stack. -/
inductive StackValue where
  | int (value : Int32)
  /-- A reference to an object, which is known by a number, or to none. -/
  | reference (object? : Option Nat)
  /-- A value that no condition tests. -/
  | other
  deriving DecidableEq

/-- Does the first number compare so with the second one? -/
def OrdComparison.holds : OrdComparison → Int32 → Int32 → Bool
  | .eq, first, second => decide (first = second)
  | .ge, first, second => decide (second ≤ first)
  | .gt, first, second => decide (second < first)
  | .le, first, second => decide (first ≤ second)
  | .lt, first, second => decide (first < second)
  | .ne, first, second => decide (first ≠ second)

/-- Does the first reference compare so with the second one? -/
def EqComparison.holds : EqComparison → Option Nat → Option Nat → Bool
  | .eq, first, second => decide (first = second)
  | .ne, first, second => decide (first ≠ second)

/-- Whether a condition holds, and what is left of the stack.  It needs its
operands on top, the second one above the first. -/
def Condition.evaluate? : Condition → List StackValue → Option (Bool × List StackValue)
  | .zero comparison, .int first :: rest => some (comparison.holds first 0, rest)
  | .ints comparison, .int second :: .int first :: rest =>
      some (comparison.holds first second, rest)
  | .refs comparison, .reference second :: .reference first :: rest =>
      some (comparison.holds first second, rest)
  | .null comparison, .reference first :: rest =>
      some (comparison.holds first none, rest)
  | _, _ => none

theorem OrdComparison.holds_negate (comparison : OrdComparison)
    (first second : Int32) :
    comparison.negate.holds first second = !comparison.holds first second := by
  cases comparison with
  | eq | ne => simp [negate, holds]
  | ge | le =>
    simp only [negate, holds]
    rw [← decide_not, decide_eq_decide, Int32.not_le]
  | gt | lt =>
    simp only [negate, holds]
    rw [← decide_not, decide_eq_decide, Int32.not_lt]

theorem EqComparison.holds_negate (comparison : EqComparison)
    (first second : Option Nat) :
    comparison.negate.holds first second = !comparison.holds first second := by
  cases comparison <;> simp [negate, holds]

/-- **The negation of a condition** takes the same operands, and holds exactly
when the condition does not. -/
theorem Condition.evaluate?_negate (condition : Condition)
    (stack : List StackValue) :
    condition.negate.evaluate? stack =
      (condition.evaluate? stack).map fun (outcome, rest) => (!outcome, rest) := by
  unfold evaluate? negate
  cases condition with
  | zero comparison | null comparison =>
    rcases stack with _ | ⟨_ | _ | _, rest⟩ <;>
      simp [OrdComparison.holds_negate, EqComparison.holds_negate]
  | ints comparison | refs comparison =>
    rcases stack with _ | ⟨_ | _ | _, _ | ⟨_ | _ | _, rest⟩⟩ <;>
      simp [OrdComparison.holds_negate, EqComparison.holds_negate]

/-- A moment of an execution. -/
structure Moment where
  /-- The position of the element that is executed next. -/
  position : Nat
  stack : List StackValue

/-- One step of an execution.  There is none behind the last element, and none
to a label that is not placed in the code. -/
inductive Step (code : List Element) : Moment → Moment → Prop where
  /-- What does not branch leaves some stack behind; a pseudo-element leaves it
  alone. -/
  | next {position : Nat} {element : Element} {stack later : List StackValue}
      (hat : code[position]? = some element) (hgoes : element.flow = .next)
      (hpseudo : element.isPseudo = true → later = stack)
      (hmore : position + 1 < code.length) :
      Step code ⟨position, stack⟩ ⟨position + 1, later⟩
  /-- A condition that holds. -/
  | taken {position target : Nat} {condition : Condition} {label : Label}
      {stack rest : List StackValue}
      (hat : code[position]? = some (.branch (.test condition label)))
      (hholds : condition.evaluate? stack = some (true, rest))
      (hplace : code[target]? = some (.label label)) :
      Step code ⟨position, stack⟩ ⟨target, rest⟩
  /-- A condition that does not hold. -/
  | passed {position : Nat} {condition : Condition} {label : Label}
      {stack rest : List StackValue}
      (hat : code[position]? = some (.branch (.test condition label)))
      (hfails : condition.evaluate? stack = some (false, rest))
      (hmore : position + 1 < code.length) :
      Step code ⟨position, stack⟩ ⟨position + 1, rest⟩
  /-- A jump, or a switch. -/
  | jumped {position target : Nat} {instruction : Branch Label} {label : Label}
      {stack later : List StackValue}
      (hat : code[position]? = some (.branch instruction))
      (hleaves : instruction.flow = .leave) (htarget : label ∈ instruction.targets)
      (hplace : code[target]? = some (.label label)) :
      Step code ⟨position, stack⟩ ⟨target, later⟩

/-- Executions follow the flow of control. -/
theorem Step.flow {code : List Element} {moment later : Moment}
    (h : Step code moment later) : Flow code moment.position later.position := by
  cases h with
  | next hat hgoes _ hmore => exact .next hat (by rw [hgoes]; decide) hmore
  | taken hat _ hplace => exact .jump hat List.mem_cons_self hplace
  | passed hat _ hmore =>
    refine .next hat ?_ hmore
    intro hleaves
    cases hleaves
  | jumped hat _ htarget hplace => exact .jump hat htarget hplace

/-- A stretch of code that control leaves at most for an exit, from where it
does not go on. -/
theorem Flow.stays {code : List Element} (low high exit : Nat)
    (hjump : ∀ position target element label, low ≤ position → position ≤ high →
      code[position]? = some element → label ∈ element.targets →
      code[target]? = some (.label label) →
      (low ≤ target ∧ target ≤ high) ∨ target = exit)
    (hend : high + 1 = exit ∨
      ∃ element, code[high]? = some element ∧ element.flow = .leave)
    (hexit : ∀ target, ¬ Flow code exit target) {position target : Nat}
    (hstart : (low ≤ position ∧ position ≤ high) ∨ position = exit)
    (hflow : Relation.ReflTransGen (Flow code) position target) :
    (low ≤ target ∧ target ≤ high) ∨ target = exit := by
  induction hflow with
  | refl => exact hstart
  | tail _ hstep ih =>
    rcases ih with ⟨hlow, hhigh⟩ | rfl
    · cases hstep with
      | next hat hgoes _ =>
        rcases Nat.lt_or_eq_of_le hhigh with hinside | rfl
        · exact .inl ⟨by omega, hinside⟩
        · rcases hend with hnext | ⟨last, hlast, hleaves⟩
          · exact .inr hnext
          · rw [hlast, Option.some.injEq] at hat
            subst hat
            exact absurd hleaves hgoes
      | jump hat htarget hplace => exact hjump _ _ _ _ hlow hhigh hat htarget hplace
    · exact absurd hstep (hexit _)

/-- The second arm of a conditional, between the labels of its block. -/
structure ElseArm where
  start : Label
  stop : Label
  part : List Element

/-- What a conditional is lowered to. -/
structure Lowering where
  condition : Condition
  breakLabel : Label
  /-- The labels of the block of the first arm. -/
  thenStart : Label
  thenStop : Label
  thenPart : List Element
  /-- Does the first arm end with a jump over the second one? -/
  jumps : Bool
  elseArm? : Option ElseArm

namespace Lowering

/-- Where the branch on the negated condition goes. -/
def skipLabel (lowering : Lowering) : Label :=
  match lowering.elseArm? with
  | none => lowering.breakLabel
  | some arm => arm.start

/-- The first arm, with the jump over the second one. -/
def thenCode (lowering : Lowering) : List Element :=
  lowering.thenPart ++
    if lowering.jumps then [.branch (.goto lowering.breakLabel)] else []

/-- What the second arm consists of, if there is one. -/
def elsePart (lowering : Lowering) : List Element :=
  match lowering.elseArm? with
  | none => []
  | some arm => arm.part

/-- The second arm, between its labels. -/
def elseCode (lowering : Lowering) : List Element :=
  match lowering.elseArm? with
  | none => []
  | some arm => .label arm.start :: (arm.part ++ [.label arm.stop])

/-- The start and stop labels of the blocks of the construct. -/
def delimiters (lowering : Lowering) : List Label :=
  lowering.thenStart :: lowering.thenStop ::
    match lowering.elseArm? with
    | none => []
    | some arm => [arm.start, arm.stop]

/-- The whole code. -/
def code (lowering : Lowering) : List Element :=
  .label lowering.thenStart ::
    .branch (.test lowering.condition.negate lowering.skipLabel) ::
    (lowering.thenCode ++ .label lowering.thenStop ::
      (lowering.elseCode ++ [.label lowering.breakLabel]))

/-- Where the arm begins that is to be executed. -/
def entry (lowering : Lowering) (outcome : Bool) : Nat :=
  if outcome then 2 else lowering.thenCode.length + 3

/-- Where the break label is. -/
def exit (lowering : Lowering) : Nat :=
  lowering.thenCode.length + lowering.elseCode.length + 3

/-- The position is in the arm that is to be executed. -/
def InArm (lowering : Lowering) (outcome : Bool) (position : Nat) : Prop :=
  if outcome then 2 ≤ position ∧ position < lowering.thenCode.length + 3
  else lowering.thenCode.length + 3 ≤ position ∧ position < lowering.exit

/-- No branch of an arm goes to a delimiter of the construct, or into the other
arm. -/
structure KeepsApart (lowering : Lowering) : Prop where
  thenDelimiters : ∀ element ∈ lowering.thenPart, ∀ label ∈ element.targets,
    label ∉ lowering.delimiters
  elseDelimiters : ∀ element ∈ lowering.elsePart, ∀ label ∈ element.targets,
    label ∉ lowering.delimiters
  thenElse : ∀ element ∈ lowering.thenPart, ∀ label ∈ element.targets,
    .label label ∉ lowering.elsePart
  elseThen : ∀ element ∈ lowering.elsePart, ∀ label ∈ element.targets,
    .label label ∉ lowering.thenPart

/-- What was pushed goes to no delimiter of the construct, and no branch of an
arm goes to a label in the other arm. -/
structure IsUncrossed (lowering : Lowering) (pushed : List Element) : Prop where
  delimiters : ∀ element ∈ pushed, ∀ label ∈ element.targets,
    label ∉ lowering.delimiters
  thenElse : ∀ element ∈ lowering.thenCode, ∀ label ∈ element.targets,
    .label label ∉ lowering.elseCode
  elseThen : ∀ element ∈ lowering.elseCode, ∀ label ∈ element.targets,
    .label label ∉ lowering.thenCode

/-- The first of two arms has a dead end. -/
def EndsClosed (lowering : Lowering) : Prop :=
  lowering.elseArm?.isSome = true →
    ∃ before element after, lowering.thenCode = before ++ element :: after ∧
      element.flow = .leave ∧ ∀ label, .label label ∉ after

/-- **The condition decides what is executed.**  With the operands of the
condition on the stack, execution comes to the branch and then enters one arm,
the first one if the condition holds.  It keeps to the arm until it comes to the
break label, unless it leaves the construct. -/
structure Decides (lowering : Lowering) : Prop where
  begins : ∀ stack moment, Step lowering.code ⟨0, stack⟩ moment ↔
    moment = ⟨1, stack⟩
  enters : ∀ stack outcome rest,
    lowering.condition.evaluate? stack = some (outcome, rest) →
    ∀ moment, Step lowering.code ⟨1, stack⟩ moment ↔
      moment = ⟨lowering.entry outcome, rest⟩
  keeps : ∀ outcome stack moment,
    Relation.ReflTransGen (Step lowering.code) ⟨lowering.entry outcome, stack⟩
      moment →
    lowering.InArm outcome moment.position ∨ moment.position = lowering.exit

variable {lowering : Lowering} {element : Element} {label : Label}
  {position target : Nat}

theorem length_code : lowering.code.length = lowering.exit + 1 := by
  simp only [code, exit, List.length_cons, List.length_append, List.length_nil]
  omega

/-- What stands at a position. -/
theorem code_cases (h : lowering.code[position]? = some element) :
    (position = 0 ∧ element = .label lowering.thenStart) ∨
      (position = 1 ∧ element =
        .branch (.test lowering.condition.negate lowering.skipLabel)) ∨
      (2 ≤ position ∧ position < lowering.thenCode.length + 2 ∧
        lowering.thenCode[position - 2]? = some element) ∨
      (position = lowering.thenCode.length + 2 ∧
        element = .label lowering.thenStop) ∨
      (lowering.thenCode.length + 3 ≤ position ∧ position < lowering.exit ∧
        element ∈ lowering.elseCode) ∨
      (position = lowering.exit ∧ element = .label lowering.breakLabel) := by
  simp only [exit]
  rcases position with _ | _ | position
  · exact .inl ⟨rfl, (Option.some.inj h).symm⟩
  · exact .inr (.inl ⟨rfl, (Option.some.inj h).symm⟩)
  refine .inr (.inr ?_)
  simp only [code, List.getElem?_cons_succ] at h
  by_cases hthen : position < lowering.thenCode.length
  · rw [List.getElem?_append_left hthen] at h
    exact .inl ⟨by omega, by omega, by simpa using h⟩
  refine .inr ?_
  rw [List.getElem?_append_right (by omega)] at h
  obtain ⟨offset, hoffset⟩ := Nat.exists_eq_add_of_le (Nat.le_of_not_lt hthen)
  rw [hoffset, Nat.add_sub_cancel_left] at h
  rcases offset with _ | offset
  · exact .inl ⟨by omega, (Option.some.inj h).symm⟩
  refine .inr ?_
  rw [List.getElem?_cons_succ] at h
  by_cases helse : offset < lowering.elseCode.length
  · rw [List.getElem?_append_left helse] at h
    exact .inl ⟨by omega, by omega, List.mem_of_getElem? h⟩
  refine .inr ?_
  rw [List.getElem?_append_right (by omega), List.getElem?_singleton] at h
  split at h
  · exact ⟨by omega, (Option.some.inj h).symm⟩
  · cases h

/-- What stands behind a prefix of the code. -/
theorem getElem?_of_append {code before after : List Element}
    (h : code = before ++ element :: after) :
    code[before.length]? = some element := by
  rw [h, List.getElem?_append_right (Nat.le_refl _), Nat.sub_self]
  rfl

theorem code_exit :
    lowering.code[lowering.exit]? = some (.label lowering.breakLabel) := by
  have hsplit : lowering.code =
      (.label lowering.thenStart ::
        .branch (.test lowering.condition.negate lowering.skipLabel) ::
        (lowering.thenCode ++ .label lowering.thenStop :: lowering.elseCode)) ++
        [.label lowering.breakLabel] := by
    simp [code]
  have hat := getElem?_of_append hsplit
  have hlength : lowering.exit =
      (.label lowering.thenStart ::
        .branch (.test lowering.condition.negate lowering.skipLabel) ::
        (lowering.thenCode ++ .label lowering.thenStop :: lowering.elseCode) :
        List Element).length := by
    simp only [exit, List.length_cons, List.length_append]
    omega
  rw [hlength]
  exact hat

/-- The label that the branch skips to is right behind the first arm. -/
theorem code_skip :
    lowering.code[lowering.thenCode.length + 3]? =
      some (.label lowering.skipLabel) := by
  have hskip : ∃ after, lowering.elseCode ++ [.label lowering.breakLabel] =
      .label lowering.skipLabel :: after := by
    cases harm : lowering.elseArm? with
    | none => exact ⟨[], by simp [elseCode, skipLabel, harm]⟩
    | some arm =>
      exact ⟨arm.part ++ [.label arm.stop, .label lowering.breakLabel],
        by simp [elseCode, skipLabel, harm]⟩
  obtain ⟨after, hafter⟩ := hskip
  have hsplit : lowering.code =
      (.label lowering.thenStart ::
        .branch (.test lowering.condition.negate lowering.skipLabel) ::
        (lowering.thenCode ++ [.label lowering.thenStop])) ++
        .label lowering.skipLabel :: after := by
    simp [code, hafter]
  have hat := getElem?_of_append hsplit
  simpa using hat

/-- Where control does not go on: the break label is the last element. -/
theorem not_flow_exit : ¬ Flow lowering.code lowering.exit target := by
  intro hflow
  cases hflow with
  | next _ _ hmore =>
    rw [length_code] at hmore
    omega
  | jump hat htarget _ =>
    rw [code_exit, Option.some.injEq] at hat
    subst hat
    cases htarget

/-- A branch in the first arm is one of its part, or the jump at its end. -/
theorem mem_thenPart (h : element ∈ lowering.thenCode)
    (htarget : label ∈ element.targets) :
    element ∈ lowering.thenPart ∨ label = lowering.breakLabel := by
  rw [thenCode, List.mem_append] at h
  rcases h with hpart | hjump
  · exact .inl hpart
  · split at hjump
    · rw [List.mem_singleton] at hjump
      subst hjump
      exact .inr (List.mem_singleton.1 htarget)
    · cases hjump

theorem mem_elsePart (h : element ∈ lowering.elseCode)
    (htarget : label ∈ element.targets) : element ∈ lowering.elsePart := by
  unfold elseCode at h
  unfold elsePart
  split at h
  · cases h
  · next arm harm =>
    simp only [List.mem_cons, List.mem_append, List.not_mem_nil, or_false] at h
    rcases h with rfl | hpart | rfl
    · cases htarget
    · exact hpart
    · cases htarget

/-- A label in the first arm is placed by its part. -/
theorem label_mem_thenPart (h : .label label ∈ lowering.thenCode) :
    .label label ∈ lowering.thenPart := by
  rw [thenCode, List.mem_append] at h
  rcases h with hpart | hjump
  · exact hpart
  · split at hjump
    · cases List.mem_singleton.1 hjump
    · cases hjump

/-- A label in the second arm is a delimiter, or placed by its part. -/
theorem label_mem_elsePart (h : .label label ∈ lowering.elseCode) :
    label ∈ lowering.delimiters ∨ .label label ∈ lowering.elsePart := by
  unfold elseCode at h
  unfold elsePart delimiters
  split at h
  · cases h
  · simp only [List.mem_cons, List.mem_append, List.not_mem_nil, or_false,
      ElementOf.label.injEq] at h ⊢
    rcases h with rfl | hpart | rfl
    · exact .inl (by simp)
    · exact .inr hpart
    · exact .inl (by simp)

/-- Where a label stands. -/
theorem place_cases (h : lowering.code[target]? = some (.label label)) :
    label ∈ lowering.delimiters ∨
      (2 ≤ target ∧ target < lowering.thenCode.length + 2 ∧
        lowering.thenCode[target - 2]? = some (.label label)) ∨
      (lowering.thenCode.length + 3 ≤ target ∧ target < lowering.exit ∧
        .label label ∈ lowering.elsePart) ∨
      (target = lowering.exit ∧ label = lowering.breakLabel) := by
  rcases code_cases h with ⟨-, hlabel⟩ | ⟨-, hbranch⟩ | hthen | ⟨-, hlabel⟩ |
    ⟨hlow, hhigh, hmem⟩ | ⟨hexit, hlabel⟩
  · cases hlabel
    exact .inl List.mem_cons_self
  · cases hbranch
  · exact .inr (.inl hthen)
  · cases hlabel
    exact .inl (List.mem_cons_of_mem _ List.mem_cons_self)
  · rcases label_mem_elsePart hmem with hdelimiter | hpart
    · exact .inl hdelimiter
    · exact .inr (.inr (.inl ⟨hlow, hhigh, hpart⟩))
  · cases hlabel
    exact .inr (.inr (.inr ⟨hexit, rfl⟩))

/-- The first step: the start label. -/
theorem begins (stack : List StackValue) (moment : Moment) :
    Step lowering.code ⟨0, stack⟩ moment ↔ moment = ⟨1, stack⟩ := by
  have hat : lowering.code[0]? = some (.label lowering.thenStart) := rfl
  constructor
  · intro hstep
    cases hstep with
    | next hnext _ hpseudo _ =>
      rw [hat, Option.some.injEq] at hnext
      subst hnext
      rw [hpseudo rfl]
    | taken htest _ _ | passed htest _ _ | jumped htest _ _ _ =>
      rw [hat, Option.some.injEq] at htest
      cases htest
  · rintro rfl
    have hmore := lowering.length_code
    exact .next hat rfl (fun _ => rfl) (by rw [hmore, exit]; omega)

/-- **The second step**: the branch is taken exactly if the condition does not
hold. -/
theorem enters (hnodup : (lowering.code.filterMap ElementOf.placed?).Nodup)
    {stack rest : List StackValue} {outcome : Bool}
    (houtcome : lowering.condition.evaluate? stack = some (outcome, rest))
    (moment : Moment) :
    Step lowering.code ⟨1, stack⟩ moment ↔
      moment = ⟨lowering.entry outcome, rest⟩ := by
  have hat : lowering.code[1]? = some
      (.branch (.test lowering.condition.negate lowering.skipLabel)) := rfl
  have hnegate : lowering.condition.negate.evaluate? stack =
      some (!outcome, rest) := by
    rw [Condition.evaluate?_negate, houtcome]
    rfl
  constructor
  · intro hstep
    cases hstep with
    | next hnext hgoes _ _ =>
      rw [hat, Option.some.injEq] at hnext
      subst hnext
      cases hgoes
    | taken htest hholds hplace =>
      rw [hat] at htest
      cases htest
      rw [hnegate] at hholds
      have hpair := Option.some.inj hholds
      simp only [Prod.mk.injEq, Bool.not_eq_true'] at hpair
      obtain ⟨rfl, rfl⟩ := hpair
      rw [place_unique hnodup hplace code_skip]
      rfl
    | passed htest hfails _ =>
      rw [hat] at htest
      cases htest
      rw [hnegate] at hfails
      have hpair := Option.some.inj hfails
      simp only [Prod.mk.injEq, Bool.not_eq_false'] at hpair
      obtain ⟨rfl, rfl⟩ := hpair
      rfl
    | jumped htest hleaves _ _ =>
      rw [hat] at htest
      cases htest
      cases hleaves
  · rintro rfl
    have hmore := lowering.length_code
    cases outcome with
    | true => exact .passed hat hnegate (by rw [hmore, exit]; omega)
    | false => exact .taken hat hnegate code_skip

/-- There is one way to read code as a lowering: the branch at its beginning says
where the first arm ends. -/
theorem code_unique {other : Lowering}
    (hnodup : (lowering.code.filterMap ElementOf.placed?).Nodup)
    (hcode : lowering.code = other.code) :
    lowering.thenCode = other.thenCode ∧ lowering.elseCode = other.elseCode ∧
      lowering.delimiters = other.delimiters := by
  have hparts := hcode
  simp only [code, List.cons.injEq, ElementOf.label.injEq, ElementOf.branch.injEq,
    Branch.test.injEq] at hparts
  obtain ⟨hstart, ⟨-, hskip⟩, hrest⟩ := hparts
  have hplace := @code_skip other
  rw [← hskip, ← hcode] at hplace
  have hlength : lowering.thenCode.length = other.thenCode.length := by
    have hsame := place_unique hnodup code_skip hplace
    omega
  obtain ⟨hthen, hbehind⟩ := List.append_inj hrest hlength
  simp only [List.cons.injEq, ElementOf.label.injEq] at hbehind
  obtain ⟨hstop, helse⟩ := hbehind
  have helseCode := (List.append_inj' helse rfl).1
  refine ⟨hthen, helseCode, ?_⟩
  simp only [delimiters, hstart, hstop, List.cons.injEq, true_and]
  simp only [elseCode] at helseCode
  cases hfirst : lowering.elseArm? with
  | none =>
    cases hsecond : other.elseArm? with
    | none => rfl
    | some arm => simp [hfirst, hsecond] at helseCode
  | some arm =>
    cases hsecond : other.elseArm? with
    | none => simp [hfirst, hsecond] at helseCode
    | some otherArm =>
      simp only [hfirst, hsecond, List.cons.injEq, ElementOf.label.injEq] at helseCode
      obtain ⟨hstartElse, hends⟩ := helseCode
      have hlast := (List.append_inj' hends rfl).2
      simp only [List.cons.injEq, ElementOf.label.injEq, and_true] at hlast
      simp only [hstartElse, hlast]

theorem le_exit : lowering.thenCode.length + 3 ≤ lowering.exit := by
  rw [exit]
  omega

/-- The second arm is left only for the break label. -/
theorem keeps_else (hapart : lowering.KeepsApart)
    (hflow : Relation.ReflTransGen (Flow lowering.code) (lowering.entry false)
      target) :
    lowering.InArm false target ∨ target = lowering.exit := by
  have hle := @le_exit lowering
  have hentry : lowering.entry false = lowering.thenCode.length + 3 := rfl
  have hjump : ∀ position target element label,
      lowering.thenCode.length + 3 ≤ position → position ≤ lowering.exit - 1 →
      lowering.code[position]? = some element → label ∈ element.targets →
      lowering.code[target]? = some (.label label) →
      (lowering.thenCode.length + 3 ≤ target ∧ target ≤ lowering.exit - 1) ∨
        target = lowering.exit := by
    intro position target element label hlow hhigh hat htarget hplace
    have hmem : element ∈ lowering.elsePart := by
      rcases code_cases hat with ⟨hfirst, -⟩ | ⟨hsecond, -⟩ | ⟨-, hthen, -⟩ |
        ⟨hstop, -⟩ | ⟨-, -, hmem⟩ | ⟨hlast, -⟩
      · omega
      · omega
      · omega
      · omega
      · exact mem_elsePart hmem htarget
      · omega
    rcases place_cases hplace with hdelimiter | ⟨-, -, hthen⟩ |
      ⟨hfrom, hto, -⟩ | ⟨hlast, -⟩
    · exact absurd hdelimiter (hapart.elseDelimiters element hmem label htarget)
    · exact absurd (label_mem_thenPart (List.mem_of_getElem? hthen))
        (hapart.elseThen element hmem label htarget)
    · exact .inl ⟨hfrom, by omega⟩
    · exact .inr hlast
  have hstays := Flow.stays (lowering.thenCode.length + 3) (lowering.exit - 1)
    lowering.exit hjump (.inl (by omega)) (fun _ => not_flow_exit)
    (by rw [hentry]; omega) hflow
  rcases hstays with ⟨hlow, hhigh⟩ | hlast
  · exact .inl ⟨hlow, by omega⟩
  · exact .inr hlast

/-- The first arm up to a position behind which it cannot go on, and where none
of its labels is placed. -/
theorem keeps_then_upto (hnodup : (lowering.code.filterMap ElementOf.placed?).Nodup)
    (hapart : lowering.KeepsApart) {high : Nat}
    (hinside : 2 ≤ high ∧ high ≤ lowering.thenCode.length + 2)
    (hend : high + 1 = lowering.exit ∨
      ∃ element, lowering.code[high]? = some element ∧ element.flow = .leave)
    (hplaces : ∀ position label,
      lowering.thenCode[position]? = some (.label label) → position + 2 ≤ high)
    (hflow : Relation.ReflTransGen (Flow lowering.code) (lowering.entry true)
      target) :
    lowering.InArm true target ∨ target = lowering.exit := by
  have hle := @le_exit lowering
  have hjump : ∀ position target element label,
      2 ≤ position → position ≤ high →
      lowering.code[position]? = some element → label ∈ element.targets →
      lowering.code[target]? = some (.label label) →
      (2 ≤ target ∧ target ≤ high) ∨ target = lowering.exit := by
    intro position target element label hlow hhigh hat htarget hplace
    have hmem : element ∈ lowering.thenPart ∨ label = lowering.breakLabel := by
      rcases code_cases hat with ⟨hfirst, -⟩ | ⟨hsecond, -⟩ | ⟨-, -, hthen⟩ |
        ⟨-, hlabel⟩ | ⟨helse, -, -⟩ | ⟨hlast, -⟩
      · omega
      · omega
      · exact mem_thenPart (List.mem_of_getElem? hthen) htarget
      · subst hlabel
        cases htarget
      · omega
      · omega
    rcases hmem with hpart | rfl
    · rcases place_cases hplace with hdelimiter | ⟨hfrom, hto, hthen⟩ |
        ⟨-, -, helse⟩ | ⟨hlast, -⟩
      · exact absurd hdelimiter (hapart.thenDelimiters element hpart label htarget)
      · have hbelow := hplaces _ _ hthen
        exact .inl ⟨hfrom, by omega⟩
      · exact absurd helse (hapart.thenElse element hpart label htarget)
      · exact .inr hlast
    · exact .inr (place_unique hnodup hplace code_exit)
  have hstays := Flow.stays 2 high lowering.exit hjump hend
    (fun _ => not_flow_exit) (.inl ⟨Nat.le_refl _, hinside.1⟩) hflow
  rcases hstays with ⟨hlow, hhigh⟩ | hlast
  · exact .inl ⟨hlow, by omega⟩
  · exact .inr hlast

/-- The first arm is left only for the break label. -/
theorem keeps_then (hnodup : (lowering.code.filterMap ElementOf.placed?).Nodup)
    (hapart : lowering.KeepsApart) (hclosed : lowering.EndsClosed)
    (hflow : Relation.ReflTransGen (Flow lowering.code) (lowering.entry true)
      target) :
    lowering.InArm true target ∨ target = lowering.exit := by
  cases harm : lowering.elseArm? with
  | none =>
    -- behind the only arm there is the break label
    have hnone : lowering.elseCode = [] := by simp [elseCode, harm]
    have hexit : lowering.thenCode.length + 3 = lowering.exit := by
      simp [exit, hnone]
    refine keeps_then_upto hnodup hapart ⟨?_, Nat.le_refl _⟩ (.inl hexit) ?_ hflow
    · omega
    · intro position label hat
      have hlt := (List.getElem?_eq_some_iff.1 hat).1
      omega
  | some arm =>
    obtain ⟨before, element, after, hsplit, hleaves, hlabels⟩ :=
      hclosed (by simp [harm])
    have hlength := congrArg List.length hsplit
    simp only [List.length_append, List.length_cons] at hlength
    have hdead : lowering.code[before.length + 2]? = some element := by
      have hcode : lowering.code =
          (.label lowering.thenStart ::
            .branch (.test lowering.condition.negate lowering.skipLabel) ::
            before) ++ element :: (after ++ .label lowering.thenStop ::
              (lowering.elseCode ++ [.label lowering.breakLabel])) := by
        simp [code, hsplit]
      have hat := getElem?_of_append hcode
      exact hat
    refine keeps_then_upto hnodup hapart ⟨?_, ?_⟩ (.inr ⟨element, hdead, hleaves⟩)
      ?_ hflow
    · omega
    · omega
    · intro position label hat
      by_contra hbehind
      rw [hsplit, List.getElem?_append_right (by omega)] at hat
      obtain ⟨offset, hoffset⟩ : ∃ offset,
          position - before.length = offset + 1 :=
        ⟨position - before.length - 1, by omega⟩
      rw [hoffset, List.getElem?_cons_succ] at hat
      exact hlabels label (List.mem_of_getElem? hat)

/-- **A lowering is decided by its condition**, if labels are placed once, the
first of two arms ends closed, and the arms keep apart. -/
theorem decides (hnodup : (lowering.code.filterMap ElementOf.placed?).Nodup)
    (hclosed : lowering.EndsClosed) (hapart : lowering.KeepsApart) :
    lowering.Decides where
  begins := begins
  enters _ _ _ houtcome moment := enters hnodup houtcome moment
  keeps outcome stack moment hexecution := by
    have hflow : Relation.ReflTransGen (Flow lowering.code)
        (lowering.entry outcome) moment.position :=
      hexecution.lift Moment.position fun _ _ hstep => hstep.flow
    cases outcome with
    | true => exact keeps_then hnodup hapart hclosed hflow
    | false => exact keeps_else hapart hflow

end Lowering

end JvmMethod
