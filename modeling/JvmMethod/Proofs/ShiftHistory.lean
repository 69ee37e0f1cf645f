import JvmMethod.Proofs.ChainRequests
import JvmMethod.Proofs.HostSlots

/-!
# What a shift answers

A shift is asked where slots have moved, for itself or for elements that go
through it, and meanwhile the builder may be used for other things.  Its answers
can be told from the answers before: `firstAnswer?` is the first one that was
given for a slot, to a value that was at least as wide.  This is all that the
table of the shift knows, so it does not matter in which order slots were seen,
or what else the builder was used for.

* `Injection.remembers_lookUp`: one more lookup keeps the table in step with the
  history.
* `LocalShift.key_eq_iff`, `LocalShift.key_before_iff`: the keys of the table are
  apart, and a wide value takes only the narrow key of its own slot along.
* `shift_exactly`: what every lookup answers and asks for, and what every element
  becomes, at any point of any session.
-/

namespace JvmMethod

variable {ω α : Type}

/-- A slot was looked up for a value of a kind. -/
structure Lookup where
  slot : Slot
  kind : Kind
  answer : Except Fault Slot

/-- What a shift was used for. -/
inductive ShiftEvent where
  | shifted (lookup : Lookup)
  /-- An element was taken in, and its slot was looked up. -/
  | moved (element : Element) (lookup : Lookup)
  /-- An element without a slot was taken in. -/
  | passed (element : Element)

/-- What is done in a session with a shift and a builder. -/
inductive ShiftStep (ω : Type) where
  | shift (slot : Slot) (kind : Kind)
  /-- Lets an element go through the shift. -/
  | accept (element : Element)
  /-- Does something else with the builder. -/
  | meanwhile (script : Script ω Unit)

namespace Lookup

/-- What the lookup answers about values of a width in a slot: its own answer, if
it was about the slot and about a value that is at least as wide. -/
def answer? (lookup : Lookup) (slot : Slot) (width : Nat) : Option Slot :=
  if lookup.slot = slot ∧ width ≤ lookup.kind.width then lookup.answer.toOption
  else none

end Lookup

namespace ShiftEvent

/-- The lookup of an event. -/
def lookup? : ShiftEvent → Option Lookup
  | .shifted lookup => some lookup
  | .moved _ lookup => some lookup
  | .passed _ => none

/-- The elements that an event emits: one for each that was taken in and whose
slot was found. -/
def emitted : ShiftEvent → List Element
  | .shifted _ => []
  | .moved element lookup =>
      lookup.answer.toOption.toList.map fun target => element.withLocalSlot target
  | .passed element => [element]

end ShiftEvent

/-- The first answer about values of a width in a slot. -/
def firstAnswer? (history : List ShiftEvent) (slot : Slot) (width : Nat) :
    Option Slot :=
  history.findSome? fun event =>
    event.lookup?.bind fun lookup => lookup.answer? slot width

namespace Injection

/-- Looks a slot up. -/
def lookUp (injection : Injection ω) (slot : Slot) (kind : Kind) :
    Except Fault Slot × Injection ω :=
  serve (LocalShift.shift slot kind).run injection

/-- Lets an element go through the shift. -/
def takeIn (injection : Injection ω) (element : Element) :
    Except Fault Unit × Injection ω :=
  serve (LocalShift.transform.accept element).run injection

/-- What a script of the shift asks of the builder. -/
def requests : Script LocalShift α → Injection ω → List Request
  | .done _, _ => []
  | .ask request next, injection =>
      let (answer, chain, ambient) :=
        injection.chain.run (.send request) injection.ambient
      request :: requests (next answer)
        { injection with
          chain, ambient, pushed := injection.pushed ++ request.pushed }
  | .read next, injection => requests (next injection.shift) injection
  | .change f next, injection =>
      requests next { injection with shift := f injection.shift }

/-- Does a step of a session. -/
def perform (injection : Injection ω) :
    ShiftStep ω → Option ShiftEvent × Injection ω
  | .shift slot kind =>
      let (answer, next) := injection.lookUp slot kind
      (some (.shifted { slot, kind, answer }), next)
  | .accept element =>
      let next := (injection.takeIn element).2
      match element.localSlot? with
      | none => (some (.passed element), next)
      | some (slot, kind) =>
          let (answer, _) := injection.lookUp slot kind
          (some (.moved element { slot, kind, answer }), next)
  | .meanwhile script =>
      let (_, chain, ambient) := injection.chain.run script injection.ambient
      (none, { injection with chain, ambient })

/-- Does the steps of a session, and puts what happens behind a history. -/
def performAll (history : List ShiftEvent) (injection : Injection ω) :
    List (ShiftStep ω) → List ShiftEvent × Injection ω
  | [] => (history, injection)
  | step :: steps =>
      let (event?, next) := injection.perform step
      performAll (history ++ event?.toList) next steps

end Injection

namespace LocalShift

variable {fixed slot other : Slot} {width otherWidth : Nat}

/-- Different slots, or widths, have different keys. -/
theorem key_eq_iff (hfixed : fixed ≤ slot) (hother : fixed ≤ other)
    (hwidth : width = 1 ∨ width = 2) (hotherWidth : otherWidth = 1 ∨ otherWidth = 2) :
    key fixed other otherWidth = key fixed slot width ↔
      other = slot ∧ otherWidth = width := by
  have hle := UInt16.le_iff_toNat_le.1 hfixed
  have hotherLe := UInt16.le_iff_toNat_le.1 hother
  rw [← UInt16.toNat_inj]
  simp only [key]
  omega

/-- The key before a wide one is the narrow one of the same slot. -/
theorem key_before_iff (hfixed : fixed ≤ slot) (hother : fixed ≤ other)
    (hotherWidth : otherWidth = 1 ∨ otherWidth = 2) :
    key fixed other otherWidth + 1 = key fixed slot 2 ↔
      other = slot ∧ otherWidth = 1 := by
  have hle := UInt16.le_iff_toNat_le.1 hfixed
  have hotherLe := UInt16.le_iff_toNat_le.1 hother
  rw [← UInt16.toNat_inj]
  simp only [key]
  omega

/-- The keys of a table are numbers from zero, no two of them fall together, and
what a wide value takes along is the key of a narrow one in its own slot. -/
structure KeysApart (fixed : Slot) : Prop where
  /-- The arithmetic of keys is that of the integers: nothing is taken from less. -/
  exact : ∀ slot width, fixed ≤ slot → width = 1 ∨ width = 2 →
    fixed.toNat ≤ 2 * slot.toNat ∧
      (key fixed slot width : Int) = 2 * slot.toNat - fixed.toNat + width - 1
  apart : ∀ slot other width otherWidth, fixed ≤ slot → fixed ≤ other →
    width = 1 ∨ width = 2 → otherWidth = 1 ∨ otherWidth = 2 →
      key fixed other otherWidth = key fixed slot width →
        other = slot ∧ otherWidth = width
  before : ∀ slot, fixed ≤ slot →
    0 < key fixed slot 2 ∧ key fixed slot 2 - 1 = key fixed slot 1

theorem keysApart (fixed : Slot) : KeysApart fixed where
  exact := by
    intro slot width hfixed hwidth
    have hle := UInt16.le_iff_toNat_le.1 hfixed
    simp only [key]
    omega
  apart := by
    intro slot other width otherWidth hfixed hother hwidth hotherWidth
    exact (key_eq_iff hfixed hother hwidth hotherWidth).1
  before := by
    intro slot hfixed
    have hle := UInt16.le_iff_toNat_le.1 hfixed
    simp only [key]
    omega

end LocalShift

section History

variable {history : List ShiftEvent} {slot : Slot} {width : Nat}

theorem firstAnswer?_append (history more : List ShiftEvent) (slot : Slot)
    (width : Nat) :
    firstAnswer? (history ++ more) slot width =
      (firstAnswer? history slot width).or (firstAnswer? more slot width) := by
  unfold firstAnswer?
  rw [List.findSome?_append]

theorem firstAnswer?_singleton {event : ShiftEvent} {lookup : Lookup}
    (h : event.lookup? = some lookup) (slot : Slot) (width : Nat) :
    firstAnswer? [event] slot width = lookup.answer? slot width := by
  unfold firstAnswer?
  rw [List.findSome?_singleton, h, Option.bind_some]

/-- A lookup for a wide value says something about narrow ones too. -/
theorem firstAnswer?_narrow (h : firstAnswer? history slot width = none)
    {wider : Nat} (hle : width ≤ wider) : firstAnswer? history slot wider = none := by
  unfold firstAnswer? at h ⊢
  rw [List.findSome?_eq_none_iff] at h ⊢
  intro event hmem
  have hnone := h event hmem
  rw [Option.bind_eq_none_iff] at hnone ⊢
  intro lookup hlookup
  have hanswer := hnone lookup hlookup
  unfold Lookup.answer? at hanswer ⊢
  split
  · next hsame =>
    rwa [if_pos ⟨hsame.1, Nat.le_trans hle hsame.2⟩] at hanswer
  · rfl

end History

/-- A chain that has no slot to hand out stays as it is. -/
theorem Chain.allocate_error {chain next : Chain ω} {kind : Kind} {fault : Fault}
    (h : chain.allocate kind = (.error fault, next)) :
    next = chain ∧ claimSlot chain.topLocal kind = .error fault := by
  induction chain generalizing next with
  | terminal state =>
    simp only [allocate] at h
    cases hclaim : claimSlot state.topLocal kind with
    | error cause =>
      rw [state.allocate_of_error hclaim] at h
      cases h
      exact ⟨rfl, hclaim⟩
    | ok top =>
      obtain ⟨after, hallocate, -⟩ := state.allocate_of_ok hclaim
      rw [hallocate] at h
      cases h
  | block opened below ih =>
    simp only [allocate, Block.allocate] at h
    split at h
    · next hclaim =>
      cases h
      exact ⟨rfl, hclaim⟩
    · cases h
  | transform layer stage below ih =>
    rcases hbelow : below.allocate kind with ⟨answer, after⟩
    simp only [allocate, hbelow] at h
    cases h
    obtain ⟨hsame, hclaim⟩ := ih hbelow
    exact ⟨congrArg _ hsame, hclaim⟩

theorem claimSlot_error {top : Slot} {kind : Kind} {fault : Fault}
    (hvoid : kind ≠ .void) (h : claimSlot top kind = .error fault) :
    fault = .localsOverflow := by
  rw [claimSlot, if_neg hvoid] at h
  split at h
  · cases h
  · cases h
    rfl

namespace Injection

variable {injection next : Injection ω} {slot target : Slot} {kind : Kind}
variable {fixed : Slot} {history : List ShiftEvent}

/-- **What a lookup may come to**: what it asks of the builder, what it answers,
and what becomes of the shift and the builder. -/
inductive LooksUp (injection : Injection ω) (slot : Slot) :
    Kind → List Request → Except Fault Slot → Injection ω → Prop where
  | void : LooksUp injection slot .void [] (.error .voidLocal) injection
  | fixed {kind : Kind} (hvoid : kind ≠ .void)
      (hfixed : slot < injection.shift.fixed) :
      LooksUp injection slot kind [] (.ok slot) injection
  | known {kind : Kind} {target : Slot} (hvoid : kind ≠ .void)
      (hmoved : injection.shift.fixed ≤ slot)
      (hknown : injection.shift.slots.get?
        (LocalShift.key injection.shift.fixed slot kind.width) = some target) :
      LooksUp injection slot kind [] (.ok target) injection
  /-- The slot is new, and the builder has one for it. -/
  | taken {kind : Kind} {target : Slot} {chain : Chain ω} (hvoid : kind ≠ .void)
      (hmoved : injection.shift.fixed ≤ slot)
      (hnew : injection.shift.slots.get?
        (LocalShift.key injection.shift.fixed slot kind.width) = none)
      (htake : injection.chain.allocate kind = (.ok target, chain)) :
      LooksUp injection slot kind [.allocate kind] (.ok target)
        { injection with
          chain
          shift := injection.shift.assign
            (LocalShift.key injection.shift.fixed slot kind.width) kind.width target }
  /-- The slot is new, and the builder has none. -/
  | full {kind : Kind} (hvoid : kind ≠ .void)
      (hmoved : injection.shift.fixed ≤ slot)
      (hnew : injection.shift.slots.get?
        (LocalShift.key injection.shift.fixed slot kind.width) = none)
      (hfull : injection.chain.allocate kind =
        (.error .localsOverflow, injection.chain)) :
      LooksUp injection slot kind [.allocate kind] (.error .localsOverflow) injection

theorem lookUp_cases (injection : Injection ω) (slot : Slot) (kind : Kind) :
    ∃ asked answer next,
      requests (LocalShift.shift slot kind).run injection = asked ∧
      injection.lookUp slot kind = (answer, next) ∧
      injection.LooksUp slot kind asked answer next := by
  unfold lookUp
  rw [LocalShift.run_shift]
  simp only [requests, serve]
  by_cases hvoid : kind = .void
  · subst hvoid
    exact ⟨_, _, _, rfl, rfl, .void⟩
  by_cases hfixed : slot < injection.shift.fixed
  · rw [if_neg hvoid, if_pos hfixed]
    exact ⟨_, _, _, rfl, rfl, .fixed hvoid hfixed⟩
  have hmoved := UInt16.not_lt.1 hfixed
  rw [if_neg hvoid, if_neg hfixed]
  cases hget : injection.shift.slots.get?
      (LocalShift.key injection.shift.fixed slot kind.width) with
  | some target => exact ⟨_, _, _, rfl, rfl, .known hvoid hmoved hget⟩
  | none =>
    have hrun := injection.chain.run_allocate injection.ambient kind
    rcases htake : injection.chain.allocate kind with ⟨fault | target, chain⟩
    · obtain ⟨rfl, hclaim⟩ := Chain.allocate_error htake
      rw [claimSlot_error hvoid hclaim] at htake
      rw [htake] at hrun
      refine ⟨_, _, _, ?_, ?_, .full hvoid hmoved hget htake⟩ <;>
        simp [requests, serve, hrun, Request.pushed]
    · rw [htake] at hrun
      refine ⟨_, _, _, ?_, ?_, .taken hvoid hmoved hget htake⟩ <;>
        simp [requests, serve, hrun, Request.pushed]

/-- What a lookup answers and asks for, given the history of the shift. -/
structure AnswersFrom (fixed : Slot) (history : List ShiftEvent)
    (injection : Injection ω) (slot : Slot) (kind : Kind)
    (asked : List Request) (answer : Except Fault Slot) (next : Injection ω) :
    Prop where
  /-- There are no void locals. -/
  void : kind = .void → asked = [] ∧ answer = .error .voidLocal ∧ next = injection
  /-- The slots that are shared with the method stay where they are. -/
  shared : kind ≠ .void → slot < fixed →
    asked = [] ∧ answer = .ok slot ∧ next = injection
  /-- A slot that was found before is found again. -/
  known : kind ≠ .void → fixed ≤ slot →
    ∀ target, firstAnswer? history slot kind.width = some target →
      asked = [] ∧ answer = .ok target ∧ next = injection
  /-- Every other slot is taken from the builder. -/
  taken : kind ≠ .void → fixed ≤ slot →
    firstAnswer? history slot kind.width = none →
      asked = [.allocate kind] ∧ answer = (injection.chain.allocate kind).1 ∧
        next.chain = (injection.chain.allocate kind).2
  /-- A lookup that fails changes nothing. -/
  failed : ∀ fault, answer = .error fault →
    next = injection ∧ (fault = .voidLocal ∨ fault = .localsOverflow)

end Injection

/-- The table of a shift is what the history tells. -/
structure LocalShift.Remembers (shift : LocalShift) (fixed : Slot)
    (history : List ShiftEvent) : Prop where
  fixed_eq : shift.fixed = fixed
  get?_eq : ∀ slot width, fixed ≤ slot → width = 1 ∨ width = 2 →
    shift.slots.get? (key fixed slot width) = firstAnswer? history slot width

namespace Injection

variable {injection : Injection ω} {slot : Slot} {kind : Kind}
variable {fixed : Slot} {history : List ShiftEvent}

/-- **A lookup answers from the history.** -/
theorem answersFrom (h : injection.shift.Remembers fixed history) (slot : Slot)
    (kind : Kind) :
    AnswersFrom fixed history injection slot kind
      (requests (LocalShift.shift slot kind).run injection)
      (injection.lookUp slot kind).1 (injection.lookUp slot kind).2 := by
  obtain ⟨asked, answer, next, hasked, hanswer, hcases⟩ :=
    injection.lookUp_cases slot kind
  rw [hasked, hanswer]
  have hfixedEq := h.fixed_eq
  cases hcases with
  | void =>
    constructor <;> simp
  | fixed hvoid hfixed =>
    rw [hfixedEq] at hfixed
    constructor <;> simp [hvoid, hfixed, UInt16.not_le.2 hfixed]
  | known hvoid hmoved hknown =>
    rw [hfixedEq] at hmoved hknown
    rw [h.get?_eq slot kind.width hmoved (width_of_ne_void hvoid)] at hknown
    constructor <;> simp [hvoid, UInt16.not_lt.2 hmoved, hknown]
  | taken hvoid hmoved hnew htake =>
    rw [hfixedEq] at hmoved hnew
    rw [h.get?_eq slot kind.width hmoved (width_of_ne_void hvoid)] at hnew
    constructor <;> simp [hvoid, UInt16.not_lt.2 hmoved, hnew, htake]
  | full hvoid hmoved hnew hfull =>
    rw [hfixedEq] at hmoved hnew
    rw [h.get?_eq slot kind.width hmoved (width_of_ne_void hvoid)] at hnew
    constructor <;> simp [hvoid, UInt16.not_lt.2 hmoved, hnew, hfull]

end Injection

namespace LocalShift.Remembers

variable {shift : LocalShift} {fixed slot target : Slot} {kind : Kind}
variable {history : List ShiftEvent} {event : ShiftEvent}

/-- An event whose answer is not new adds nothing. -/
theorem keeps (h : shift.Remembers fixed history)
    (hnothing : ∀ other width, fixed ≤ other → firstAnswer? history other width = none →
      firstAnswer? [event] other width = none) :
    shift.Remembers fixed (history ++ [event]) := by
  refine ⟨h.fixed_eq, ?_⟩
  intro other width hother hwidth
  rw [h.get?_eq other width hother hwidth, firstAnswer?_append]
  cases hbefore : firstAnswer? history other width with
  | some target => rfl
  | none => rw [hnothing other width hother hbefore, Option.or_none]

/-- **A slot is entered**: for values of the kind, and for narrower ones unless
they have a slot of their own. -/
theorem assign (h : shift.Remembers fixed history) (hvoid : kind ≠ .void)
    (hmoved : fixed ≤ slot)
    (hnew : firstAnswer? history slot kind.width = none)
    (hevent : event.lookup? = some { slot, kind, answer := .ok target }) :
    (shift.assign (key fixed slot kind.width) kind.width target).Remembers fixed
      (history ++ [event]) := by
  have hkind := Injection.width_of_ne_void hvoid
  refine ⟨by simp [h.fixed_eq], ?_⟩
  intro other width hother hwidth
  rw [get?_assign, firstAnswer?_append, firstAnswer?_singleton hevent,
    h.get?_eq other width hother hwidth]
  simp only [key_eq_iff hmoved hother hkind hwidth]
  by_cases hself : other = slot ∧ width = kind.width
  · obtain ⟨rfl, rfl⟩ := hself
    simp [hnew, Lookup.answer?, Except.toOption]
  · rw [if_neg hself]
    -- a wide value takes the narrow key of its slot along, if that is still free
    by_cases hbefore : kind.width = 2 ∧ other = slot ∧ width = 1
    · obtain ⟨hwide, rfl, rfl⟩ := hbefore
      have hkey := (key_before_iff hmoved hother hwidth).2 ⟨rfl, rfl⟩
      cases hold : firstAnswer? history other 1 with
      | some kept => simp
      | none => simp [hwide, hkey, Lookup.answer?, Except.toOption]
    · have hold : ¬ (kind.width = 2 ∧
          key fixed other width + 1 = key fixed slot kind.width ∧
          firstAnswer? history other width = none) := by
        intro htakes
        obtain ⟨hwide, hkey, -⟩ := htakes
        rw [hwide] at hkey
        exact hbefore ⟨hwide, (key_before_iff hmoved hother hwidth).1 hkey⟩
      have hapart : ¬ (slot = other ∧ width ≤ kind.width) := by
        intro hsame
        obtain ⟨rfl, hle⟩ := hsame
        have hne : width ≠ kind.width := fun hequal => hself ⟨rfl, hequal⟩
        exact hbefore ⟨by omega, rfl, by omega⟩
      rw [if_neg hold]
      simp [Lookup.answer?, hapart]

end LocalShift.Remembers

namespace Injection

variable {injection : Injection ω} {fixed : Slot} {history : List ShiftEvent}

/-- **A lookup is remembered.** -/
theorem remembers_lookUp (h : injection.shift.Remembers fixed history)
    {event : ShiftEvent} {slot : Slot} {kind : Kind}
    (hevent : event.lookup? =
      some { slot, kind, answer := (injection.lookUp slot kind).1 }) :
    (injection.lookUp slot kind).2.shift.Remembers fixed (history ++ [event]) := by
  obtain ⟨asked, answer, next, -, hlookUp, hcases⟩ := injection.lookUp_cases slot kind
  rw [hlookUp] at hevent ⊢
  cases hcases with
  | void =>
    apply h.keeps
    intro other width _ _
    simp [firstAnswer?_singleton hevent, Lookup.answer?, Except.toOption]
  | fixed hvoid hfixed =>
    apply h.keeps
    intro other width hother _
    have hne : slot ≠ other := by
      intro hsame
      rw [hsame, h.fixed_eq] at hfixed
      exact UInt16.not_le.2 hfixed hother
    simp [firstAnswer?_singleton hevent, Lookup.answer?, hne]
  | @known _ target hvoid hmoved hknown =>
    apply h.keeps
    intro other width hother hnone
    rw [h.fixed_eq] at hmoved hknown
    rw [h.get?_eq slot kind.width hmoved (width_of_ne_void hvoid)] at hknown
    rw [firstAnswer?_singleton hevent, Lookup.answer?]
    split
    · next hsame =>
      obtain ⟨rfl, hle⟩ := hsame
      have hwider := firstAnswer?_narrow hnone hle
      rw [hknown] at hwider
      cases hwider
    · rfl
  | @taken _ target chain hvoid hmoved hnew htake =>
    rw [h.fixed_eq] at hmoved hnew ⊢
    rw [h.get?_eq slot kind.width hmoved (width_of_ne_void hvoid)] at hnew
    exact h.assign hvoid hmoved hnew hevent
  | full hvoid hmoved hnew hfull =>
    apply h.keeps
    intro other width _ _
    simp [firstAnswer?_singleton hevent, Lookup.answer?, Except.toOption]

theorem requests_bind {β : Type} (script : Script LocalShift α)
    (next : α → Script LocalShift β) (injection : Injection ω) :
    requests (script.bind next) injection =
      requests script injection ++
        requests (next (serve script injection).1) (serve script injection).2 := by
  induction script generalizing injection with
  | done => rfl
  | ask request _ ih => exact congrArg (request :: ·) (ih _ _)
  | read _ ih => exact ih _ _
  | change _ _ ih => exact ih _

/-- Looking a slot up emits nothing. -/
theorem pushed_lookUp (injection : Injection ω) (slot : Slot) (kind : Kind) :
    (injection.lookUp slot kind).2.pushed = injection.pushed := by
  obtain ⟨asked, answer, next, -, hlookUp, hcases⟩ := injection.lookUp_cases slot kind
  rw [hlookUp]
  cases hcases <;> rfl

/-- **What becomes of an element** that is taken in: it is emitted once, with
nothing but its slot changed, unless its slot is not found. -/
structure TakesIn (injection : Injection ω) (element : Element) : Prop where
  passed : element.localSlot? = none →
    requests (LocalShift.transform.accept element).run injection = [.push element] ∧
    injection.takeIn element = serve (.send (.push element)) injection
  moved : ∀ slot kind, element.localSlot? = some (slot, kind) →
    ∀ target, (injection.lookUp slot kind).1 = .ok target →
      requests (LocalShift.transform.accept element).run injection =
        requests (LocalShift.shift slot kind).run injection ++
          [.push (element.withLocalSlot target)] ∧
      injection.takeIn element =
        serve (.send (.push (element.withLocalSlot target)))
          (injection.lookUp slot kind).2 ∧
      (element.withLocalSlot target).localSlot? = some (target, kind) ∧
      (element.withLocalSlot target).withLocalSlot slot = element
  refused : ∀ slot kind, element.localSlot? = some (slot, kind) →
    ∀ fault, (injection.lookUp slot kind).1 = .error fault →
      requests (LocalShift.transform.accept element).run injection =
        requests (LocalShift.shift slot kind).run injection ∧
      injection.takeIn element = (.error fault, (injection.lookUp slot kind).2)

theorem takesIn (injection : Injection ω) (element : Element) :
    injection.TakesIn element := by
  have haccept := LocalShift.run_accept element
  constructor
  · intro hnone
    rw [hnone] at haccept
    rw [takeIn, haccept]
    exact ⟨rfl, rfl⟩
  · intro slot kind hslot target htarget
    rw [hslot] at haccept
    rw [takeIn, haccept]
    simp only [serve_bind, requests_bind]
    unfold lookUp at htarget
    rw [htarget]
    refine ⟨rfl, rfl, ElementOf.localSlot?_withLocalSlot hslot target, ?_⟩
    rw [ElementOf.withLocalSlot_withLocalSlot, ElementOf.withLocalSlot_self hslot]
  · intro slot kind hslot fault hfault
    rw [hslot] at haccept
    rw [takeIn, haccept]
    simp only [serve_bind, requests_bind]
    unfold lookUp at hfault
    rw [hfault]
    exact ⟨List.append_nil _, rfl⟩

/-- What a session has done: the shift remembers the history, and what was
emitted is what the events of the history emit. -/
structure Records (fixed : Slot) (history : List ShiftEvent)
    (injection : Injection ω) : Prop where
  remembers : injection.shift.Remembers fixed history
  pushed : injection.pushed = history.flatMap ShiftEvent.emitted

/-- A step is recorded. -/
theorem Records.perform (h : injection.Records fixed history) (step : ShiftStep ω) :
    (injection.perform step).2.Records fixed
      (history ++ (injection.perform step).1.toList) := by
  cases step with
  | shift slot kind =>
    have hlookUp : (injection.lookUp slot kind).2.shift.Remembers fixed
        (history ++ [.shifted ⟨slot, kind, (injection.lookUp slot kind).1⟩]) :=
      remembers_lookUp h.remembers rfl
    constructor
    · exact hlookUp
    · simp [Injection.perform, pushed_lookUp, h.pushed, ShiftEvent.emitted]
  | accept element =>
    have htakes := injection.takesIn element
    cases hslot : element.localSlot? with
    | none =>
      have hevent : injection.perform (.accept element) =
          (some (.passed element), (injection.takeIn element).2) := by
        simp only [Injection.perform, hslot]
      have hpushes : injection.Pushes element
          (serve (.send (.push element)) injection).2 :=
        injection.pushes_serve element
      rw [hevent, (htakes.passed hslot).2]
      constructor
      · simp only [hpushes.shift, Option.toList_some]
        apply h.remembers.keeps
        intro other width _ _
        rfl
      · simp [hpushes.pushed, h.pushed, ShiftEvent.emitted]
    | some place =>
      obtain ⟨slot, kind⟩ := place
      have hevent : injection.perform (.accept element) =
          (some (.moved element ⟨slot, kind, (injection.lookUp slot kind).1⟩),
            (injection.takeIn element).2) := by
        simp only [Injection.perform, hslot]
      have hlookUp : (injection.lookUp slot kind).2.shift.Remembers fixed
          (history ++ [.moved element ⟨slot, kind, (injection.lookUp slot kind).1⟩]) :=
        remembers_lookUp h.remembers rfl
      have hsame := injection.pushed_lookUp slot kind
      rw [hevent]
      cases hanswer : (injection.lookUp slot kind).1 with
      | error fault =>
        rw [(htakes.refused slot kind hslot fault hanswer).2]
        rw [hanswer] at hlookUp
        refine ⟨hlookUp, ?_⟩
        simp [hsame, h.pushed, ShiftEvent.emitted, Except.toOption]
      | ok target =>
        rw [(htakes.moved slot kind hslot target hanswer).2.1]
        rw [hanswer] at hlookUp
        have hpushes : (injection.lookUp slot kind).2.Pushes
            (element.withLocalSlot target)
            (serve (.send (.push (element.withLocalSlot target)))
              (injection.lookUp slot kind).2).2 :=
          (injection.lookUp slot kind).2.pushes_serve _
        constructor
        · simp only [hpushes.shift]
          exact hlookUp
        · simp [hpushes.pushed, hsame, h.pushed, ShiftEvent.emitted, Except.toOption]
  | meanwhile script =>
    constructor
    · simpa [Injection.perform] using h.remembers
    · simpa [Injection.perform] using h.pushed

/-- A session is recorded. -/
theorem Records.performAll (h : injection.Records fixed history)
    (steps : List (ShiftStep ω)) :
    (performAll history injection steps).2.Records fixed
      (performAll history injection steps).1 := by
  induction steps generalizing injection history with
  | nil => exact h
  | cons step steps ih => exact ih (h.perform step)

end Injection

/-- **A shift answers from its history**, at any point of any session with a shift
and a builder.  Every lookup answers what the first successful one for a value in
its slot that is at least as wide has answered, and asks the builder for a slot
only if there was none.  Every element that is taken in is emitted once, with
nothing but its slot changed, and in the order in which they were taken in.  A
fragment is fed to the shift by taking in its elements, with nothing before the first
and nothing after the last. -/
theorem shift_exactly (fixed : Slot) (chain : Chain ω) (ambient : ω)
    (steps : List (ShiftStep ω)) :
    let session := Injection.performAll [] { shift := { fixed }, chain, ambient } steps
    (∀ slot kind,
      Injection.AnswersFrom fixed session.1 session.2 slot kind
        (Injection.requests (LocalShift.shift slot kind).run session.2)
        (session.2.lookUp slot kind).1 (session.2.lookUp slot kind).2) ∧
    (∀ element, session.2.TakesIn element) ∧
    session.2.pushed = session.1.flatMap ShiftEvent.emitted ∧
    (∀ fragment, Build.transformElements fragment LocalShift.transform =
      Build.acceptEach LocalShift.transform fragment) ∧
    LocalShift.KeysApart fixed := by
  intro session
  have hstart : Injection.Records fixed []
      ({ shift := { fixed }, chain, ambient } : Injection ω) := by
    refine ⟨⟨rfl, ?_⟩, rfl⟩
    intro slot width _ _
    simp [SlotTable.get?, firstAnswer?]
  have hrecords : session.2.Records fixed session.1 := hstart.performAll steps
  exact ⟨Injection.answersFrom hrecords.remembers, session.2.takesIn, hrecords.pushed,
    LocalShift.transformElements_transform, LocalShift.keysApart fixed⟩

/-- A narrow value and a wide one in the same slot, with a slot of the method in
between. -/
def backFilledSteps : List (ShiftStep Unit) :=
  [.shift 2 .int, .meanwhile (.ask (.allocate .int) fun _ => .done ()),
    .shift 2 .long, .shift 5 .double, .accept (.store .float 5)]

/-- What becomes of them in a method with one parameter. -/
def backFilled : List ShiftEvent × Injection Unit :=
  Injection.performAll []
    { shift := { fixed := 1 }
      chain := .terminal (.buffered (.withInitialLocals 1)), ambient := () }
    backFilledSteps

/-- The wide value is found in its own slots, and a narrow one in the slot of the
wide one that was there first. -/
theorem shift_exactly_backFilled :
    Injection.requests (LocalShift.shift 2 .long).run backFilled.2 = [] ∧
      backFilled.2.lookUp 2 .long = (.ok 3, backFilled.2) ∧
      backFilled.2.pushed = [.store .float 5] := by
  have hexactly := shift_exactly 1 (.terminal (.buffered (.withInitialLocals 1))) ()
    backFilledSteps
  obtain ⟨hasked, hanswer, hnext⟩ :=
    (hexactly.1 2 .long).known (by decide) (by decide) 3 rfl
  exact ⟨hasked, Prod.ext hanswer hnext, hexactly.2.2.1⟩

end JvmMethod
