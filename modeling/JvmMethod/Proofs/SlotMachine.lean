import Mathlib.Data.List.Forall2
import JvmMethod.Element

/-!
# What code computes in its locals

A machine that knows nothing but local slots.  A *frame* holds the values that
are alive: each is known by the slot and the width it was stored with, and a
store kills every other value whose range of slots it overlaps.  An execution
visits the elements of a fragment in any order and any number of times, which
covers every control flow that the fragment may have.

`Frame.reads_moved` is a simulation.  If every element has its slot moved, and
moved ranges overlap only where the ranges did before (`Separates`), then what
is read alive in the one fragment is read alive in the other, with the same
value.  Nothing is said about how the slots were chosen.
-/

namespace JvmMethod

/-- The slot that an instruction loads, stores or increments, and the width of
the value there. -/
def ElementOf.access? {ℓ : Type} : ElementOf ℓ → Option (Slot × Nat)
  | .load kind slot => some (slot, kind.width)
  | .store kind slot => some (slot, kind.width)
  | .increment slot _ => some (slot, 1)
  | _ => none

/-- The values in the local slots that are alive, by slot and width. -/
def Frame (V : Type) := Nat → Nat → Option V

/-- What an instruction leaves in its slot. -/
inductive Written (V : Type) where
  /-- A value that it does not take from the slot. -/
  | constant (value : V)
  /-- What it makes of the value in the slot, if that is alive. -/
  | update (f : V → V)

/-- A moment of an execution: which element of the fragment it is at, and what
is written if that element writes. -/
structure Visit (V : Type) where
  index : Nat
  written : Written V

/-- Two ranges of slots, each with its first slot and its width, have a slot in
common. -/
def Overlap (slot width other otherWidth : Nat) : Prop :=
  slot < other + otherWidth ∧ other < slot + width

instance (slot width other otherWidth : Nat) :
    Decidable (Overlap slot width other otherWidth) :=
  inferInstanceAs (Decidable (_ ∧ _))

/-- What is in a slot after it is written, by what was there before. -/
def Written.result {V : Type} (before : Option V) : Written V → Option V
  | .constant value => some value
  | .update f => before.map f

namespace Frame

variable {V : Type}

/-- The frame after a store: all that overlaps is dead. -/
def store (frame : Frame V) (slot width : Nat) (value : Option V) : Frame V :=
  fun other otherWidth =>
    if other = slot ∧ otherWidth = width then value
    else if Overlap slot width other otherWidth then none
    else frame other otherWidth

/-- Executes an element: what it reads, if it reads, and the frame after it. -/
def execute (frame : Frame V) (written : Written V) :
    Element → List (Option V) × Frame V
  | .load kind slot => ([frame slot.toNat kind.width], frame)
  | .store kind slot =>
      ([], frame.store slot.toNat kind.width
        (written.result (frame slot.toNat kind.width)))
  | .increment slot _ =>
      ([frame slot.toNat 1],
        frame.store slot.toNat 1 (written.result (frame slot.toNat 1)))
  | _ => ([], frame)

/-- Executes a visit of a fragment.  There is nothing to do behind its end. -/
def visit (frame : Frame V) (fragment : List Element) (visit : Visit V) :
    List (Option V) × Frame V :=
  match fragment[visit.index]? with
  | some element => frame.execute visit.written element
  | none => ([], frame)

/-- All that an execution reads, in order. -/
def reads (frame : Frame V) (fragment : List Element) :
    List (Visit V) → List (Option V)
  | [] => []
  | first :: visits =>
      (frame.visit fragment first).1 ++
        (frame.visit fragment first).2.reads fragment visits

end Frame

/-- What was alive is alive, with the same value. -/
def KeepsAlive {V : Type} (before after : Option V) : Prop :=
  ∀ value, before = some value → after = some value

theorem KeepsAlive.result {V : Type} {before after : Option V}
    (h : KeepsAlive before after) (written : Written V) :
    KeepsAlive (written.result before) (written.result after) := by
  cases written with
  | constant value => exact fun _ hvalue => hvalue
  | update f =>
    intro value hvalue
    obtain ⟨old, hold, rfl⟩ := Option.map_eq_some_iff.1 hvalue
    simp [Written.result, h old hold]

/-- A partial map of slots, by width, under which ranges overlap only if they
did before. -/
def Separates (moved : Nat → Nat → Option Nat) : Prop :=
  ∀ {slot width target other otherWidth otherTarget},
    0 < width → 0 < otherWidth →
    moved slot width = some target →
    moved other otherWidth = some otherTarget →
    Overlap target width otherTarget otherWidth →
    Overlap slot width other otherWidth

/-- The second element is the first one, moved to another slot; if it accesses
the slot, then to the one that the map has for it. -/
def MovedBy (moved : Nat → Nat → Option Nat) (element result : Element) : Prop :=
  ∃ target, result = element.withLocalSlot target ∧
    ∀ slot width, element.access? = some (slot, width) →
      0 < width ∧ moved slot.toNat width = some target.toNat

theorem MovedBy.mono {moved later : Nat → Nat → Option Nat}
    {element result : Element} (h : MovedBy moved element result)
    (hlater : ∀ slot width target, moved slot width = some target →
      later slot width = some target) : MovedBy later element result := by
  obtain ⟨target, hresult, hmoved⟩ := h
  refine ⟨target, hresult, fun slot width haccess => ?_⟩
  obtain ⟨hwidth, htarget⟩ := hmoved slot width haccess
  exact ⟨hwidth, hlater _ _ _ htarget⟩

/-- Every value that is alive in the first frame is alive in the second one,
where its slot has moved. -/
def Frame.Follows {V : Type} (moved : Nat → Nat → Option Nat)
    (frame shifted : Frame V) : Prop :=
  ∀ slot width value, frame slot width = some value →
    0 < width ∧ ∃ target, moved slot width = some target ∧
      shifted target width = some value

namespace Frame

variable {V : Type} {moved : Nat → Nat → Option Nat} {frame shifted : Frame V}
  {slot width target : Nat}

/-- Reading a slot that has moved. -/
theorem Follows.keepsAlive (h : frame.Follows moved shifted)
    (hmoved : moved slot width = some target) :
    KeepsAlive (frame slot width) (shifted target width) := by
  intro value hvalue
  obtain ⟨-, other, hother, hshifted⟩ := h slot width value hvalue
  rw [hmoved] at hother
  cases hother
  exact hshifted

/-- **One store.**  What it kills in the second frame it kills in the first one
too. -/
theorem Follows.store (h : frame.Follows moved shifted)
    (hseparates : Separates moved) (hwidth : 0 < width)
    (hmoved : moved slot width = some target) {value result : Option V}
    (hkeeps : KeepsAlive value result) :
    (frame.store slot width value).Follows moved
      (shifted.store target width result) := by
  intro other otherWidth alive halive
  simp only [Frame.store] at halive
  split at halive
  · next hsame =>
    obtain ⟨rfl, rfl⟩ := hsame
    refine ⟨hwidth, target, hmoved, ?_⟩
    simp [Frame.store, hkeeps alive halive]
  · next hother =>
    split at halive
    · cases halive
    next hclear =>
    obtain ⟨hpositive, otherTarget, hotherMoved, hshifted⟩ :=
      h other otherWidth alive halive
    refine ⟨hpositive, otherTarget, hotherMoved, ?_⟩
    have hapart : ¬ Overlap target width otherTarget otherWidth :=
      fun hoverlap =>
        hclear (hseparates hwidth hpositive hmoved hotherMoved hoverlap)
    have hdifferent : ¬ (otherTarget = target ∧ otherWidth = width) := by
      intro hsame
      obtain ⟨rfl, rfl⟩ := hsame
      exact hapart ⟨by omega, by omega⟩
    simp only [Frame.store, if_neg hdifferent, if_neg hapart, hshifted]

/-- One element and what became of it. -/
theorem Follows.execute (h : frame.Follows moved shifted)
    (hseparates : Separates moved) {element result : Element}
    (hmoved : MovedBy moved element result) (written : Written V) :
    List.Forall₂ KeepsAlive (frame.execute written element).1
        (shifted.execute written result).1 ∧
      (frame.execute written element).2.Follows moved
        (shifted.execute written result).2 := by
  obtain ⟨target, rfl, hslot⟩ := hmoved
  cases element with
  | load kind slot =>
    have hkeeps := h.keepsAlive (hslot slot kind.width rfl).2
    exact ⟨.cons hkeeps .nil, h⟩
  | store kind slot =>
    obtain ⟨hwidth, htarget⟩ := hslot slot kind.width rfl
    have hkeeps := (h.keepsAlive htarget).result written
    exact ⟨.nil, h.store hseparates hwidth htarget hkeeps⟩
  | increment slot amount =>
    obtain ⟨hwidth, htarget⟩ := hslot slot 1 rfl
    have hkeeps := h.keepsAlive htarget
    exact ⟨.cons hkeeps .nil,
      h.store hseparates hwidth htarget (hkeeps.result written)⟩
  | _ => exact ⟨.nil, h⟩

/-- **Executions.**  Along every path through a fragment and the same path
through the fragment with its slots moved, what is read alive in the first one
is read alive in the second one, and is the same. -/
theorem reads_moved {fragment result : List Element}
    (hseparates : Separates moved)
    (hmoved : List.Forall₂ (MovedBy moved) fragment result)
    (h : frame.Follows moved shifted) (visits : List (Visit V)) :
    List.Forall₂ KeepsAlive (frame.reads fragment visits)
      (shifted.reads result visits) := by
  induction visits generalizing frame shifted with
  | nil => exact .nil
  | cons first visits ih =>
    have hstep : List.Forall₂ KeepsAlive (frame.visit fragment first).1
          (shifted.visit result first).1 ∧
        (frame.visit fragment first).2.Follows moved
          (shifted.visit result first).2 := by
      simp only [visit]
      by_cases hin : first.index < fragment.length
      · have hin' : first.index < result.length := by
          rwa [← hmoved.length_eq]
        rw [List.getElem?_eq_getElem hin, List.getElem?_eq_getElem hin']
        exact h.execute hseparates (List.forall₂_iff_get.1 hmoved |>.2 _ hin hin')
          first.written
      · have hout' : ¬ first.index < result.length := by
          rwa [← hmoved.length_eq]
        rw [List.getElem?_eq_none (Nat.le_of_not_lt hin),
          List.getElem?_eq_none (Nat.le_of_not_lt hout')]
        exact ⟨.nil, h⟩
    exact List.rel_append hstep.1 (ih hstep.2)

end Frame

end JvmMethod
