import JvmMethod.Fault
import JvmMethod.Locals
import Mathlib.Data.List.Basic

/-!
# Counters of local slots

The terminal and every open block keep a counter, which is the next slot that
they hand out.  A new block starts with the counter of what it is opened over,
only the innermost counter moves, and leaving a block drops its counter.

A `SlotTrace` is what happens to such a stack of counters: which slots were
asked for and how that was answered, and when blocks were opened and left.  The
slots of a trace that are still *live* are those of scopes that were not left.

* `SlotTrace.stacked`: live slots lie between the counter of their scope and the
  one below, so they are apart.
* `SlotTrace.unique`: the answers depend on nothing but the counters in the
  beginning and what was asked for.
-/

namespace JvmMethod

/-- What happens to the local slots of a stack of scopes. -/
inductive SlotEvent where
  /-- The innermost scope was asked for a slot. -/
  | allocated (kind : Kind) (answer : Except Fault Slot)
  /-- A block was opened. -/
  | opened
  /-- The innermost block was closed or dropped. -/
  | left

/-- What was done, without the answer. -/
inductive SlotCall where
  | allocate (kind : Kind)
  | openBlock
  | leaveBlock
  deriving DecidableEq

/-- What was done. -/
def SlotEvent.call : SlotEvent → SlotCall
  | .allocated kind _ => .allocate kind
  | .opened => .openBlock
  | .left => .leaveBlock

/-- The slots of a value. -/
structure SlotRange where
  start : Slot
  width : Nat
  deriving DecidableEq

namespace SlotRange

/-- The first slot behind the value. -/
def stop (range : SlotRange) : Nat :=
  range.start.toNat + range.width

/-- The two values have no slot in common. -/
def Apart (range other : SlotRange) : Prop :=
  range.stop ≤ other.start.toNat ∨ other.stop ≤ range.start.toNat

end SlotRange

/-- The ranges that were handed out in each scope, the innermost first, after an
event. -/
def SlotEvent.note (held : List (List SlotRange)) :
    SlotEvent → List (List SlotRange)
  | .allocated kind (.ok start) =>
      held.modifyHead ({ start, width := kind.width } :: ·)
  | .allocated _ (.error _) => held
  | .opened => [] :: held
  | .left => held.tail

/-- The ranges that were handed out in scopes that are still open. -/
def liveRanges (events : List SlotEvent) : List SlotRange :=
  (events.foldl SlotEvent.note [[]]).flatten

/-- What a counter answers, and what becomes of it. -/
def handOut (top : Slot) (kind : Kind) : Except Fault Slot × Slot :=
  match claimSlot top kind with
  | .ok next => (.ok top, next)
  | .error fault => (.error fault, top)

/-- What happens to a stack of counters, the innermost first. -/
inductive SlotTrace : List Slot → List SlotEvent → List Slot → Prop where
  | nil (counters : List Slot) : SlotTrace counters [] counters
  | allocated {top : Slot} {outer last : List Slot} {kind : Kind}
      {events : List SlotEvent}
      (tail : SlotTrace ((handOut top kind).2 :: outer) events last) :
      SlotTrace (top :: outer) (.allocated kind (handOut top kind).1 :: events) last
  | opened {top : Slot} {outer last : List Slot} {events : List SlotEvent}
      (tail : SlotTrace (top :: top :: outer) events last) :
      SlotTrace (top :: outer) (.opened :: events) last
  | left {top below : Slot} {outer last : List Slot} {events : List SlotEvent}
      (tail : SlotTrace (below :: outer) events last) :
      SlotTrace (top :: below :: outer) (.left :: events) last

namespace SlotTrace

variable {counters middle last last' : List Slot}
  {events later events' : List SlotEvent}

theorem append (h : SlotTrace counters events middle)
    (hlater : SlotTrace middle later last) :
    SlotTrace counters (events ++ later) last := by
  induction h with
  | nil => exact hlater
  | allocated _ ih => exact .allocated (ih hlater)
  | opened _ ih => exact .opened (ih hlater)
  | left _ ih => exact .left (ih hlater)

/-- **The answers are determined** by the counters in the beginning, and by what
is done. -/
theorem unique (h : SlotTrace counters events last)
    (h' : SlotTrace counters events' last')
    (hcalls : events'.map SlotEvent.call = events.map SlotEvent.call) :
    events' = events := by
  induction h generalizing events' last' with
  | nil => exact List.map_eq_nil_iff.1 hcalls
  | allocated _ ih =>
    cases h' with
    | allocated tail =>
      simp only [List.map_cons, SlotEvent.call, List.cons.injEq,
        SlotCall.allocate.injEq] at hcalls
      obtain ⟨rfl, hrest⟩ := hcalls
      rw [ih tail hrest]
    | _ => simp [SlotEvent.call] at hcalls
  | opened _ ih =>
    cases h' with
    | opened tail => rw [ih tail (List.cons.inj hcalls).2]
    | _ => simp [SlotEvent.call] at hcalls
  | left _ ih =>
    cases h' with
    | left tail => rw [ih tail (List.cons.inj hcalls).2]
    | _ => simp [SlotEvent.call] at hcalls

end SlotTrace

/-- Ranges that a scope has handed out, from `low` to its counter. -/
structure Packed (low top : Slot) (ranges : List SlotRange) : Prop where
  low_le : low ≤ top
  inside : ∀ range ∈ ranges, low ≤ range.start ∧ range.stop ≤ top.toNat
  apart : ranges.Pairwise SlotRange.Apart

/-- The ranges of each scope are between its counter and the next one below. -/
inductive Stacked (initial : Slot) : List Slot → List (List SlotRange) → Prop where
  | terminal {top : Slot} {ranges : List SlotRange}
      (hpacked : Packed initial top ranges) : Stacked initial [top] [ranges]
  | block {top below : Slot} {outer : List Slot} {ranges : List SlotRange}
      {held : List (List SlotRange)} (hpacked : Packed below top ranges)
      (rest : Stacked initial (below :: outer) held) :
      Stacked initial (top :: below :: outer) (ranges :: held)

section Stacks

variable {initial low top next : Slot} {kind : Kind} {ranges : List SlotRange}
  {counters outer last : List Slot} {held : List (List SlotRange)}
  {events : List SlotEvent}

theorem Packed.nil (top : Slot) : Packed top top [] :=
  ⟨UInt16.le_refl top, by simp, .nil⟩

/-- A range that is handed out is behind all others of its scope. -/
theorem Packed.claim (h : Packed low top ranges)
    (hclaim : claimSlot top kind = .ok next) :
    Packed low next ({ start := top, width := kind.width } :: ranges) := by
  have hnext := toNat_of_claimSlot hclaim
  have hlow := UInt16.le_iff_toNat_le.1 h.low_le
  refine ⟨UInt16.le_iff_toNat_le.2 (by omega), ?_, ?_⟩
  · intro range hmem
    rcases List.mem_cons.1 hmem with rfl | hold
    · exact ⟨h.low_le, by simp only [SlotRange.stop]; omega⟩
    · obtain ⟨hstart, hstop⟩ := h.inside range hold
      exact ⟨hstart, by omega⟩
  · refine List.pairwise_cons.2 ⟨fun range hmem => .inr ?_, h.apart⟩
    exact (h.inside range hmem).2

/-- The innermost counter hands out a slot, or does not. -/
theorem Stacked.handOut (h : Stacked initial (top :: outer) held) (kind : Kind) :
    Stacked initial ((JvmMethod.handOut top kind).2 :: outer)
      (SlotEvent.note held (.allocated kind (JvmMethod.handOut top kind).1)) := by
  unfold JvmMethod.handOut
  cases hclaim : claimSlot top kind with
  | error fault => exact h
  | ok next =>
    cases h with
    | terminal hpacked => exact .terminal (hpacked.claim hclaim)
    | block hpacked rest => exact .block (hpacked.claim hclaim) rest

/-- **What happens to the counters keeps them stacked.** -/
theorem SlotTrace.stacked (h : SlotTrace counters events last)
    (hstart : Stacked initial counters held) :
    Stacked initial last (events.foldl SlotEvent.note held) := by
  induction h generalizing held with
  | nil => exact hstart
  | allocated _ ih => exact ih (hstart.handOut _)
  | opened _ ih => exact ih (.block (.nil _) hstart)
  | left _ ih =>
    cases hstart with
    | block _ rest => exact ih rest

/-- All ranges are from the initial counter to the innermost one. -/
theorem Stacked.packed (h : Stacked initial (top :: outer) held) :
    Packed initial top held.flatten := by
  generalize hcounters : top :: outer = counters at h
  induction h generalizing top outer with
  | terminal hpacked =>
    cases hcounters
    simpa using hpacked
  | block hpacked _ ih =>
    cases hcounters
    have hbelow := ih rfl
    have hle := UInt16.le_iff_toNat_le.1 hpacked.low_le
    refine ⟨UInt16.le_trans hbelow.low_le hpacked.low_le, ?_, ?_⟩
    · intro range hmem
      rcases List.mem_append.1 hmem with hown | hother
      · obtain ⟨hstart, hstop⟩ := hpacked.inside range hown
        exact ⟨UInt16.le_trans hbelow.low_le hstart, hstop⟩
      · obtain ⟨hstart, hstop⟩ := hbelow.inside range hother
        exact ⟨hstart, by omega⟩
    · refine List.pairwise_append.2 ⟨hpacked.apart, hbelow.apart, ?_⟩
      intro range hown other hother
      have hstart := UInt16.le_iff_toNat_le.1 (hpacked.inside range hown).1
      have hstop := (hbelow.inside other hother).2
      exact .inr (by omega)

/-- The counters do not increase from the innermost one down. -/
theorem Stacked.sorted (h : Stacked initial counters held) :
    counters.Pairwise (· ≥ ·) := by
  induction h with
  | terminal _ => simp
  | block hpacked _ ih =>
    refine List.pairwise_cons.2 ⟨fun counter hmem => ?_, ih⟩
    rcases List.mem_cons.1 hmem with rfl | hlower
    · exact hpacked.low_le
    · exact UInt16.le_trans ((List.pairwise_cons.1 ih).1 counter hlower)
        hpacked.low_le

end Stacks

end JvmMethod
