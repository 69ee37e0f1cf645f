import JvmMethod.Proofs.BuilderChain
import JvmMethod.Proofs.ShiftedSlots

/-!
# Injecting a fragment

The elements of a fragment go through one shift into a builder, and meanwhile
other things may be done with the same builder.  What the shift asks of the
builder is answered one request after the other, and what it pushes is recorded.

* `Injection.feed_cases`: what feeding an element to the shift does.
* `Injection.Holds`: the invariant.  The table of the shift is apart, below the
  next free slot of the chain, and every element was pushed with its slot moved.
* `Injection.session_preserves_reads`: what the fragment computes in its locals
  is what it computes after it is injected.
-/

namespace JvmMethod

variable {ω α β : Type}

/-- A fragment on its way through a shift into a chain of builders. -/
structure Injection (ω : Type) where
  shift : LocalShift
  chain : Chain ω
  /-- The ambient state of the transforms in the chain. -/
  ambient : ω
  /-- What the shift has pushed. -/
  pushed : List Element := []

/-- What a request pushes. -/
def Request.pushed : Request → List Element
  | .push element => [element]
  | _ => []

/-- What is done in a session. -/
inductive InjectionStep (ω : Type) where
  /-- Feeds an element of the fragment to the shift. -/
  | feed (element : Element)
  /-- Does something else with the builder. -/
  | meanwhile (script : Script ω Unit)

/-- The fragment that is fed to the shift in a session. -/
def fragmentOf : List (InjectionStep ω) → List Element
  | [] => []
  | .feed element :: steps => element :: fragmentOf steps
  | .meanwhile _ :: steps => fragmentOf steps

namespace Injection

/-- Runs a script of the shift, on the builder. -/
def serve : Script LocalShift α → Injection ω → α × Injection ω
  | .done result, injection => (result, injection)
  | .ask request next, injection =>
      let (answer, chain, ambient) :=
        injection.chain.run (.send request) injection.ambient
      serve (next answer)
        { injection with
          chain, ambient, pushed := injection.pushed ++ request.pushed }
  | .read next, injection => serve (next injection.shift) injection
  | .change f next, injection =>
      serve next { injection with shift := f injection.shift }

/-- Performs a step of a session, or fails. -/
def step (injection : Injection ω) : InjectionStep ω → Except Fault (Injection ω)
  | .feed element =>
      match serve (LocalShift.transform.accept element).run injection with
      | (.ok (), injection) => .ok injection
      | (.error fault, _) => .error fault
  | .meanwhile script =>
      let (_, chain, ambient) := injection.chain.run script injection.ambient
      .ok { injection with chain, ambient }

/-- Performs a session, or fails at the first element that is refused. -/
def session (injection : Injection ω) (steps : List (InjectionStep ω)) :
    Except Fault (Injection ω) :=
  steps.foldlM step injection

theorem serve_bind (script : Script LocalShift α)
    (next : α → Script LocalShift β) (injection : Injection ω) :
    serve (script.bind next) injection =
      serve (next (serve script injection).1) (serve script injection).2 := by
  induction script generalizing injection with
  | done => rfl
  | ask _ _ ih => exact ih _ _
  | read _ ih => exact ih _ _
  | change _ _ ih => exact ih _

end Injection

namespace LocalShift

/-- What looking a slot up asks of the builder. -/
theorem run_shift (slot : Slot) (kind : Kind) :
    (shift slot kind).run =
      .read fun state =>
        if kind = .void then .done (.error .voidLocal)
        else if slot < state.fixed then .done (.ok slot)
        else
          match state.slots.get? (key state.fixed slot kind.width) with
          | some shifted => .done (.ok shifted)
          | none =>
              .ask (.allocate kind) fun answer =>
                match answer with
                | .error fault => .done (.error fault)
                | .ok shifted =>
                    .change
                      (·.assign (key state.fixed slot kind.width) kind.width shifted)
                      (.done (.ok shifted)) := by
  unfold shift
  refine congrArg Script.read (funext fun state => ?_)
  by_cases hvoid : kind = .void
  · simp only [hvoid, if_true]
    rfl
  · simp only [hvoid, if_false, Script.bind, Function.comp_apply,
      ExceptT.bindCont]
    by_cases hfixed : slot < state.fixed
    · simp only [hfixed, if_true]
      rfl
    · simp only [hfixed, if_false]
      cases state.slots.get? (key state.fixed slot kind.width) with
      | some shifted => rfl
      | none =>
        refine congrArg (Script.ask _) (funext fun answer => ?_)
        cases answer <;> rfl

/-- What accepting an element asks of the builder. -/
theorem run_accept (element : Element) :
    (transform.accept element).run =
      match element.localSlot? with
      | none => .ask (.push element) .done
      | some (slot, kind) =>
          (shift slot kind).run.bind fun answer =>
            match answer with
            | .error fault => .done (.error fault)
            | .ok shifted => .ask (.push (element.withLocalSlot shifted)) .done := by
  simp only [transform]
  cases element.localSlot? with
  | none => rfl
  | some place =>
    refine congrArg (Script.bind _) (funext fun answer => ?_)
    cases answer <;> rfl

end LocalShift

namespace Injection

variable {injection next : Injection ω} {element : Element} {slot target : Slot}
  {kind : Kind}

/-- How a slot is looked up: it is fixed, or known, or it is entered. -/
inductive Shifts (injection : Injection ω) (slot : Slot) (kind : Kind) :
    Slot → Injection ω → Prop where
  | fixed (hfixed : slot < injection.shift.fixed) :
      Shifts injection slot kind slot injection
  | known {target : Slot} (hmoved : injection.shift.fixed ≤ slot)
      (hknown : injection.shift.place? slot.toNat kind.width =
        some target.toNat) :
      Shifts injection slot kind target injection
  | fresh {target : Slot} {chain : Chain ω} {ambient : ω}
      (hmoved : injection.shift.fixed ≤ slot)
      (hnew : injection.shift.place? slot.toNat kind.width = none)
      (hallocate : injection.chain.run (.send (.allocate kind))
        injection.ambient = (.ok target, chain, ambient)) :
      Shifts injection slot kind target
        { injection with
          chain, ambient
          shift := injection.shift.assign
            (LocalShift.key injection.shift.fixed slot kind.width) kind.width
            target }

theorem width_of_ne_void (h : kind ≠ .void) : kind.width = 1 ∨ kind.width = 2 := by
  cases kind <;> simp_all [Kind.width]

/-- Looking a slot up, unless it fails. -/
theorem shifts_of_serve
    (h : serve (LocalShift.shift slot kind).run injection = (.ok target, next)) :
    kind ≠ .void ∧ injection.Shifts slot kind target next := by
  rw [LocalShift.run_shift] at h
  simp only [serve] at h
  by_cases hvoid : kind = .void
  · simp [hvoid, serve] at h
  refine ⟨hvoid, ?_⟩
  rw [if_neg hvoid] at h
  by_cases hfixed : slot < injection.shift.fixed
  · rw [if_pos hfixed] at h
    cases h
    exact .fixed hfixed
  have hmoved : injection.shift.fixed ≤ slot := UInt16.not_lt.1 hfixed
  have hplace := LocalShift.place?_eq hmoved (width_of_ne_void hvoid)
  rw [if_neg hfixed] at h
  cases hget : injection.shift.slots.get?
      (LocalShift.key injection.shift.fixed slot kind.width) with
  | some shifted =>
    rw [hget] at h hplace
    cases h
    exact .known hmoved hplace
  | none =>
    rw [hget] at h hplace
    simp only [serve, Request.pushed, List.append_nil] at h
    rcases hallocate : injection.chain.run (.send (.allocate kind))
        injection.ambient with ⟨answer, chain, ambient⟩
    rw [hallocate] at h
    cases answer with
    | error fault => cases h
    | ok shifted =>
      cases h
      exact .fresh hmoved hplace hallocate

/-- The element has gone into the builder. -/
structure Pushes (injection : Injection ω) (element : Element)
    (next : Injection ω) : Prop where
  shift : next.shift = injection.shift
  pushed : next.pushed = injection.pushed ++ [element]
  topLocal_le : injection.chain.topLocal ≤ next.chain.topLocal

/-- Whether or not the builder takes it. -/
theorem pushes_serve (injection : Injection ω) (element : Element) :
    injection.Pushes element (serve (.ask (.push element) .done) injection).2 :=
  ⟨rfl, rfl, injection.chain.topLocal_le_run (.send (.push element))
    injection.ambient⟩

theorem pushes_of_serve
    (h : serve (.ask (.push element) .done) injection = (.ok (), next)) :
    injection.Pushes element next := by
  have hpushes := injection.pushes_serve element
  rwa [h] at hpushes

/-- **What feeding an element does**, unless it fails. -/
theorem feed_cases (h : injection.step (.feed element) = .ok next) :
    (element.localSlot? = none ∧ injection.Pushes element next) ∨
      ∃ slot kind target middle, element.localSlot? = some (slot, kind) ∧
        kind ≠ .void ∧ injection.Shifts slot kind target middle ∧
        middle.Pushes (element.withLocalSlot target) next := by
  simp only [step, LocalShift.run_accept] at h
  cases hslot : element.localSlot? with
  | none =>
    rw [hslot] at h
    refine .inl ⟨rfl, pushes_of_serve ?_⟩
    split at h
    · next hserve =>
      cases h
      exact hserve
    · cases h
  | some place =>
    obtain ⟨slot, kind⟩ := place
    rw [hslot] at h
    simp only [serve_bind] at h
    rcases hshift : serve (LocalShift.shift slot kind).run injection with
      ⟨fault | target, middle⟩
    · simp [hshift, serve] at h
    · rw [hshift] at h
      obtain ⟨hvoid, hshifts⟩ := shifts_of_serve hshift
      refine .inr ⟨slot, kind, target, middle, rfl, hvoid, hshifts,
        pushes_of_serve ?_⟩
      split at h
      · next hserve =>
        cases h
        exact hserve
      · cases h

/-- The invariant of a session: the fixed slots are not handed out, the slots
that have moved are apart, and the elements were pushed with their slots
moved. -/
structure Holds (fixed : Slot) (elements : List Element)
    (injection : Injection ω) : Prop where
  fixed_eq : injection.shift.fixed = fixed
  fixed_le : fixed ≤ injection.chain.topLocal
  apart : injection.shift.IsApart injection.chain.topLocal.toNat
  moved : List.Forall₂ (MovedBy injection.shift.moved) elements injection.pushed

end Injection

theorem LocalShift.moved_mono {shift later : LocalShift}
    (hfixed : later.fixed = shift.fixed)
    (hplace : ∀ slot width target, shift.place? slot width = some target →
      later.place? slot width = some target)
    (slot width target : Nat) (h : shift.moved slot width = some target) :
    later.moved slot width = some target := by
  simp only [moved, hfixed] at h ⊢
  split
  · next hin => rwa [if_pos hin] at h
  · next hout =>
    rw [if_neg hout] at h
    exact hplace slot width target h

namespace ElementOf

variable {ℓ : Type} {element : ElementOf ℓ}

/-- What accesses a slot is about that slot. -/
theorem localSlot?_of_access? {slot : Slot} {width : Nat}
    (h : element.access? = some (slot, width)) :
    ∃ kind, element.localSlot? = some (slot, kind) ∧ kind.width = width := by
  cases element with
  | load kind _ | store kind _ =>
    cases h
    exact ⟨kind, rfl, rfl⟩
  | increment _ _ =>
    cases h
    exact ⟨.int, rfl, rfl⟩
  | _ => cases h

theorem withLocalSlot_of_none (h : element.localSlot? = none) (slot : Slot) :
    element.withLocalSlot slot = element := by
  cases element with
  | load _ _ | store _ _ | increment _ _ | localVariable _
  | localVariableType _ => cases h
  | _ => rfl

end ElementOf

namespace Injection

variable {injection next middle : Injection ω} {element : Element}
  {slot target fixed : Slot} {kind : Kind} {elements : List Element}

theorem Holds.pushes (h : injection.Holds fixed elements)
    (hpushes : injection.Pushes element next) {original : Element}
    (hmoved : MovedBy injection.shift.moved original element) :
    next.Holds fixed (elements ++ [original]) where
  fixed_eq := hpushes.shift ▸ h.fixed_eq
  fixed_le := UInt16.le_trans h.fixed_le hpushes.topLocal_le
  apart := by
    rw [hpushes.shift]
    exact h.apart.mono (UInt16.le_iff_toNat_le.1 hpushes.topLocal_le)
  moved := by
    rw [hpushes.shift, hpushes.pushed]
    exact List.rel_append h.moved (.cons hmoved .nil)

/-- Looking a slot up keeps the invariant, and the slot has moved where it was
found.  Only a wide value in the last of the fixed slots is not covered. -/
theorem Holds.shifts (h : injection.Holds fixed elements) (hvoid : kind ≠ .void)
    (hshifts : injection.Shifts slot kind target middle) :
    middle.Holds fixed elements ∧
      (¬ (kind.width = 2 ∧ slot.toNat + 1 = fixed.toNat) →
        middle.shift.moved slot.toNat kind.width = some target.toNat) := by
  have hwidth := width_of_ne_void hvoid
  have hfixed := h.fixed_eq
  cases hshifts with
  | fixed hslot =>
    refine ⟨h, fun hinside => ?_⟩
    have hlt : slot.toNat < injection.shift.fixed.toNat :=
      UInt16.lt_iff_toNat_lt.1 hslot
    rw [LocalShift.moved, if_pos]
    rw [hfixed] at hlt ⊢
    omega
  | known hslot hknown =>
    refine ⟨h, fun _ => ?_⟩
    have hle := UInt16.le_iff_toNat_le.1 hslot
    rw [LocalShift.moved, if_neg (by omega), hknown]
  | @fresh target chain ambient hslot hnew hallocate =>
    have hle := UInt16.le_iff_toNat_le.1 hslot
    obtain ⟨rfl, hclaim⟩ := Chain.allocate_eq_ok hallocate
    have htop := toNat_of_claimSlot hclaim
    have hlow : injection.shift.fixed.toNat ≤ injection.chain.topLocal.toNat := by
      rw [hfixed]
      exact UInt16.le_iff_toNat_le.1 h.fixed_le
    constructor
    · constructor
      case fixed_eq => simp [hfixed]
      case fixed_le =>
        rw [hfixed] at hlow
        exact UInt16.le_iff_toNat_le.2 (by simp only; omega)
      case apart =>
        simp only [htop]
        exact h.apart.assign hslot hwidth hlow rfl
      case moved =>
        refine h.moved.imp fun original result hmoved => hmoved.mono ?_
        exact LocalShift.moved_mono (LocalShift.fixed_assign _)
          fun _ _ _ => LocalShift.place?_assign_of_some hslot hwidth hnew
    · intro _
      rw [LocalShift.moved, LocalShift.fixed_assign, if_neg (by omega)]
      exact LocalShift.place?_assign_self hslot hwidth

/-- A step keeps the invariant. -/
theorem Holds.feed (h : injection.Holds fixed elements)
    (hwide : ∀ slot, element.access? = some (slot, 2) →
      slot.toNat + 1 ≠ fixed.toNat)
    (hstep : injection.step (.feed element) = .ok next) :
    next.Holds fixed (elements ++ [element]) := by
  rcases feed_cases hstep with
    ⟨hnone, hpushes⟩ | ⟨slot, kind, target, middle, hslot, hvoid, hshifts, hpushes⟩
  · refine h.pushes hpushes ⟨0, (ElementOf.withLocalSlot_of_none hnone 0).symm, ?_⟩
    intro slot width haccess
    obtain ⟨kind, hkind, -⟩ := ElementOf.localSlot?_of_access? haccess
    rw [hnone] at hkind
    cases hkind
  · obtain ⟨hmiddle, hmoved⟩ := h.shifts hvoid hshifts
    refine hmiddle.pushes hpushes ⟨target, rfl, ?_⟩
    intro slot' width haccess
    obtain ⟨kind', hkind, rfl⟩ := ElementOf.localSlot?_of_access? haccess
    rw [hslot] at hkind
    cases hkind
    have hwidth := width_of_ne_void hvoid
    refine ⟨by omega, hmoved ?_⟩
    intro hends
    obtain ⟨htwo, hlast⟩ := hends
    rw [htwo] at haccess
    exact hwide slot haccess hlast

theorem Holds.meanwhile (h : injection.Holds fixed elements)
    {script : Script ω Unit} (hstep : injection.step (.meanwhile script) = .ok next) :
    next.Holds fixed elements := by
  have htop := injection.chain.topLocal_le_run script injection.ambient
  cases hstep
  exact ⟨h.fixed_eq, UInt16.le_trans h.fixed_le htop,
    h.apart.mono (UInt16.le_iff_toNat_le.1 htop), h.moved⟩

/-- A session keeps the invariant. -/
theorem Holds.session {steps : List (InjectionStep ω)}
    (h : injection.Holds fixed elements)
    (hwide : ∀ element ∈ fragmentOf steps, ∀ slot,
      element.access? = some (slot, 2) → slot.toNat + 1 ≠ fixed.toNat)
    (hsession : injection.session steps = .ok next) :
    next.Holds fixed (elements ++ fragmentOf steps) := by
  induction steps generalizing injection elements with
  | nil =>
    cases hsession
    simpa [fragmentOf] using h
  | cons step steps ih =>
    simp only [Injection.session, List.foldlM_cons, bind_eq_ok] at hsession
    obtain ⟨middle, hstep, hrest⟩ := hsession
    cases step with
    | feed element =>
      have hmiddle := h.feed (hwide element List.mem_cons_self) hstep
      have hfinal := ih hmiddle
        (fun other hmem => hwide other (List.mem_cons_of_mem _ hmem)) hrest
      simpa [fragmentOf] using hfinal
    | meanwhile script => exact ih (h.meanwhile hstep) hwide hrest

/-- The only values that are alive are in the fixed slots, where the other frame
has the same ones. -/
structure SharesFixed {V : Type} (fixed : Slot) (original shifted : Frame V) :
    Prop where
  only : ∀ slot width value, original slot width = some value →
    0 < width ∧ slot + width ≤ fixed.toNat
  shared : ∀ slot width, slot + width ≤ fixed.toNat →
    shifted slot width = original slot width

/-- **Injection preserves what a fragment computes in its locals.**  Let the
builder have the fixed slots taken, and let no element of the fragment access a
wide value in the last of them, which would reach behind it.  If all elements go
through the shift, then they are pushed with nothing but their slots changed,
and along every path through the fragment, what was read alive is read alive,
with the same value, in what was pushed. -/
theorem session_preserves_reads {V : Type} {chain : Chain ω} {ambient : ω}
    {steps : List (InjectionStep ω)} {final : Injection ω}
    (htop : fixed ≤ chain.topLocal)
    (hsession : session { shift := { fixed }, chain, ambient } steps = .ok final)
    (hwide : ∀ element ∈ fragmentOf steps, ∀ slot,
      element.access? = some (slot, 2) → slot.toNat + 1 ≠ fixed.toNat)
    {original shifted : Frame V} (hframes : SharesFixed fixed original shifted)
    (visits : List (Visit V)) :
    List.Forall₂ (fun element result =>
        ∃ slot, result = element.withLocalSlot slot)
      (fragmentOf steps) final.pushed ∧
    List.Forall₂ KeepsAlive (original.reads (fragmentOf steps) visits)
      (shifted.reads final.pushed visits) := by
  have hstart : Holds fixed [] { shift := { fixed }, chain, ambient } :=
    ⟨rfl, htop, LocalShift.isApart_empty fixed, .nil⟩
  have hfinal := hstart.session hwide hsession
  rw [List.nil_append] at hfinal
  refine ⟨hfinal.moved.imp fun _ _ ⟨target, hresult, _⟩ => ⟨target, hresult⟩, ?_⟩
  refine Frame.reads_moved hfinal.apart.separates hfinal.moved ?_ visits
  intro slot width value halive
  obtain ⟨hwidth, hinside⟩ := hframes.only slot width value halive
  refine ⟨hwidth, slot, ?_, ?_⟩
  · simp only [LocalShift.moved, hfinal.fixed_eq, hinside, if_true]
  · rw [hframes.shared slot width hinside, halive]

/-- A wide and a narrow slot move, while the method takes a slot of its own. -/
def mixedSteps : List (InjectionStep Unit) :=
  [.feed (.store .long 2), .meanwhile (.ask (.allocate .int) fun _ => .done ()),
    .feed (.store .int 1), .feed (.load .long 2), .feed (.load .int 0)]

/-- A method with one parameter. -/
def mixedStart : Injection Unit where
  shift := { fixed := 1 }
  chain := .terminal (.buffered (.withInitialLocals 1))
  ambient := ()

/-- What becomes of the method. -/
def mixedEnd : Injection Unit where
  shift := { fixed := 1, slots := ⟨#[0, 5, 0, 2, 2]⟩ }
  chain := .terminal (.buffered
    { elements := #[.store .long 1, .store .int 4, .load .long 1, .load .int 0]
      topLocal := 5 })
  ambient := ()
  pushed := [.store .long 1, .store .int 4, .load .long 1, .load .int 0]

/-- A value in the only parameter, and nothing else. -/
def parameterFrame : Frame Nat :=
  fun slot width => if slot = 0 ∧ width = 1 then some 7 else none

/-- Stores both values and reads everything, the wide one twice. -/
def mixedVisits : List (Visit Nat) :=
  [⟨0, .constant 5⟩, ⟨1, .constant 6⟩, ⟨2, .update id⟩, ⟨3, .update id⟩,
    ⟨2, .update id⟩]

theorem mixedSteps_preserve_reads :
    mixedStart.session mixedSteps = .ok mixedEnd ∧
      parameterFrame.reads (fragmentOf mixedSteps) mixedVisits =
        [some 5, some 7, some 5] ∧
      List.Forall₂ KeepsAlive
        (parameterFrame.reads (fragmentOf mixedSteps) mixedVisits)
        (parameterFrame.reads mixedEnd.pushed mixedVisits) := by
  have hsession : mixedStart.session mixedSteps = .ok mixedEnd := rfl
  have hframes : SharesFixed 1 parameterFrame parameterFrame := by
    refine ⟨?_, fun _ _ _ => rfl⟩
    intro slot width value halive
    simp only [parameterFrame, Option.ite_none_right_eq_some] at halive
    obtain ⟨⟨rfl, rfl⟩, -⟩ := halive
    decide
  have hwide : ∀ element ∈ fragmentOf mixedSteps, ∀ slot,
      element.access? = some (slot, 2) → slot.toNat + 1 ≠ (1 : Slot).toNat := by
    intro element hmem slot haccess
    simp only [fragmentOf, mixedSteps, List.mem_cons, List.not_mem_nil,
      or_false] at hmem
    rcases hmem with rfl | rfl | rfl | rfl <;> cases haccess <;> decide
  exact ⟨hsession, by decide,
    (session_preserves_reads (by decide) hsession hwide hframes mixedVisits).2⟩

end Injection

end JvmMethod
