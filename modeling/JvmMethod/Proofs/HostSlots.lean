import JvmMethod.Proofs.FragmentInjection
import JvmMethod.Structured

/-!
# The slots of the host

A method that a fragment is put into has taken slots of its own behind its
parameters: those from the fixed ones up to the next free slot.  The fragment
keeps off them, since what the shift looks up is a fixed slot, or one that it
got from the builder, which hands out nothing below its next free slot.

The shift compares the first slot of a value with the number of fixed slots.
So there is one way to get behind them: a wide value in the last fixed slot is
let through, and its second half is in the first slot of the host.

* `Injection.Spares.accept`: what accepting one element keeps, also where it
  fails.
* `Injection.transformElements_spares`: the slots that the elements of a whole
  fragment are about.
-/

namespace JvmMethod

namespace ElementOf

variable {ℓ : Type} {element : ElementOf ℓ} {slot target fixed : Slot} {kind : Kind}

/-- The slot is one of those that the value of the element takes. -/
def Touches (element : ElementOf ℓ) (touched : Nat) : Prop :=
  ∃ slot kind, element.localSlot? = some (slot, kind) ∧
    slot.toNat ≤ touched ∧ touched < slot.toNat + kind.width

/-- The value of the element starts in the last fixed slot and ends behind it. -/
def Straddles (element : ElementOf ℓ) (fixed : Slot) : Prop :=
  ∃ slot kind, element.localSlot? = some (slot, kind) ∧
    slot.toNat + 1 = fixed.toNat ∧ kind.width = 2

theorem localSlot?_withLocalSlot (h : element.localSlot? = some (slot, kind))
    (target : Slot) :
    (element.withLocalSlot target).localSlot? = some (target, kind) := by
  cases element with
  | load _ _ | store _ _ | increment _ _ | localVariable _
  | localVariableType _ =>
    cases h
    rfl
  | _ => cases h

theorem withLocalSlot_self (h : element.localSlot? = some (slot, kind)) :
    element.withLocalSlot slot = element := by
  cases element with
  | load _ _ | store _ _ | increment _ _ | localVariable _
  | localVariableType _ =>
    cases h
    rfl
  | _ => cases h

theorem withLocalSlot_withLocalSlot (element : ElementOf ℓ) (slot target : Slot) :
    (element.withLocalSlot target).withLocalSlot slot = element.withLocalSlot slot := by
  cases element <;> rfl

end ElementOf

namespace Injection

variable {ω α β : Type} {injection next : Injection ω} {element : Element}
  {slot target fixed : Slot} {kind : Kind} {top : Nat} {fragment : List Element}

/-- Looking a slot up without success leaves the shift as it is. -/
theorem serve_shift_error {fault : Fault}
    (h : serve (LocalShift.shift slot kind).run injection = (.error fault, next)) :
    next.shift = injection.shift ∧ next.pushed = injection.pushed ∧
      injection.chain.topLocal ≤ next.chain.topLocal := by
  have hunchanged : injection = next → next.shift = injection.shift ∧
      next.pushed = injection.pushed ∧
      injection.chain.topLocal ≤ next.chain.topLocal := by
    rintro rfl
    exact ⟨rfl, rfl, UInt16.le_refl _⟩
  rw [LocalShift.run_shift] at h
  simp only [serve] at h
  split at h
  · cases h
    exact hunchanged rfl
  split at h
  · cases h
  cases hget : injection.shift.slots.get?
      (LocalShift.key injection.shift.fixed slot kind.width) with
  | some shifted =>
    rw [hget] at h
    cases h
  | none =>
    rw [hget] at h
    have htop := injection.chain.topLocal_le_run (.send (.allocate kind))
      injection.ambient
    simp only [serve, Request.pushed, List.append_nil] at h
    rcases hallocate : injection.chain.run (.send (.allocate kind))
        injection.ambient with ⟨answer, chain, ambient⟩
    rw [hallocate] at h htop
    cases answer with
    | error fault =>
      cases h
      exact ⟨rfl, rfl, htop⟩
    | ok shifted => cases h

/-- Only fixed slots and slots from `top` on are used, but for the second half
of a wide value that the fragment has in the last fixed slot. -/
structure Spares (fixed : Slot) (top : Nat) (fragment : List Element)
    (injection : Injection ω) : Prop where
  fixed_eq : injection.shift.fixed = fixed
  top_le : top ≤ injection.chain.topLocal.toNat
  /-- What has moved is behind the slots of the host. -/
  behind : ∀ {slot width target},
    injection.shift.place? slot width = some target → top ≤ target
  spared : ∀ element ∈ injection.pushed, ∀ touched, element.Touches touched →
    touched < fixed.toNat ∨ top ≤ touched ∨
      touched = fixed.toNat ∧ element ∈ fragment ∧ element.Straddles fixed

/-- A slot is found among the fixed ones, or behind the slots of the host. -/
theorem Spares.shifts (h : injection.Spares fixed top fragment)
    (hvoid : kind ≠ .void) (hshifts : injection.Shifts slot kind target next) :
    next.Spares fixed top fragment ∧
      (slot = target ∧ slot < fixed ∨ top ≤ target.toNat) := by
  have hwidth := width_of_ne_void hvoid
  cases hshifts with
  | fixed hslot => exact ⟨h, .inl ⟨rfl, h.fixed_eq ▸ hslot⟩⟩
  | known hmoved hknown => exact ⟨h, .inr (h.behind hknown)⟩
  | @fresh target chain ambient hmoved hnew hallocate =>
    obtain ⟨rfl, hclaim⟩ := Chain.allocate_eq_ok hallocate
    have htop := toNat_of_claimSlot hclaim
    have hle := h.top_le
    refine ⟨⟨?_, ?_, ?_, h.spared⟩, .inr hle⟩
    · simp [h.fixed_eq]
    · simp only [htop]
      omega
    · intro other otherWidth otherTarget hplace
      rcases LocalShift.place?_assign_cases hmoved hwidth hplace with
        ⟨-, -, rfl⟩ | hold
      · exact hle
      · exact h.behind hold

/-- One more element, which keeps off the slots of the host. -/
theorem Spares.pushes (h : injection.Spares fixed top fragment)
    (hpushes : injection.Pushes element next)
    (hspared : ∀ touched, element.Touches touched →
      touched < fixed.toNat ∨ top ≤ touched ∨
        touched = fixed.toNat ∧ element ∈ fragment ∧ element.Straddles fixed) :
    next.Spares fixed top fragment where
  fixed_eq := hpushes.shift ▸ h.fixed_eq
  top_le := Nat.le_trans h.top_le (UInt16.le_iff_toNat_le.1 hpushes.topLocal_le)
  behind hplace := h.behind (hpushes.shift ▸ hplace)
  spared := by
    intro other hmem
    rw [hpushes.pushed, List.mem_append, List.mem_singleton] at hmem
    rcases hmem with hold | rfl
    · exact h.spared other hold
    · exact hspared

/-- **One element**, whether or not it is accepted. -/
theorem Spares.accept (h : injection.Spares fixed top fragment)
    (hmem : element ∈ fragment) :
    (serve (LocalShift.transform.accept element).run injection).2.Spares fixed
      top fragment := by
  rw [LocalShift.run_accept]
  cases hslot : element.localSlot? with
  | none =>
    refine h.pushes (injection.pushes_serve element) ?_
    intro touched htouches
    obtain ⟨slot, kind, hsome, -⟩ := htouches
    rw [hslot] at hsome
    cases hsome
  | some place =>
    obtain ⟨slot, kind⟩ := place
    simp only [serve_bind]
    rcases hshift : serve (LocalShift.shift slot kind).run injection with
      ⟨fault | target, middle⟩
    · obtain ⟨hsame, hpushed, htop⟩ := serve_shift_error hshift
      have hbehind := Nat.le_trans h.top_le (UInt16.le_iff_toNat_le.1 htop)
      exact ⟨hsame ▸ h.fixed_eq, hbehind, fun hplace => h.behind (hsame ▸ hplace),
        hpushed ▸ h.spared⟩
    · obtain ⟨hvoid, hshifts⟩ := shifts_of_serve hshift
      obtain ⟨hmiddle, hplace⟩ := h.shifts hvoid hshifts
      refine hmiddle.pushes (middle.pushes_serve _) ?_
      intro touched htouches
      obtain ⟨first, other, hfirst, hfrom, hto⟩ := htouches
      rw [ElementOf.localSlot?_withLocalSlot hslot] at hfirst
      cases hfirst
      have hwidth := width_of_ne_void hvoid
      rcases hplace with ⟨rfl, hfixed⟩ | hbehind
      · -- a fixed slot: only the second half of a wide value can be behind
        have hlt := UInt16.lt_iff_toNat_lt.1 hfixed
        by_cases hinside : touched < fixed.toNat
        · exact .inl hinside
        · have hlast : slot.toNat + 1 = fixed.toNat := by omega
          have hwide : kind.width = 2 := by omega
          refine .inr (.inr ⟨by omega, ?_, slot, kind, ?_, hlast, hwide⟩)
          · rwa [ElementOf.withLocalSlot_self hslot]
          · exact ElementOf.localSlot?_withLocalSlot hslot slot
      · exact .inr (.inl (Nat.le_trans hbehind hfrom))

/-- All elements of a fragment, up to the first that is not accepted. -/
theorem Spares.acceptEach (h : injection.Spares fixed top fragment)
    {elements : List Element} (hsubset : elements ⊆ fragment) :
    (serve (Build.acceptEach LocalShift.transform elements).run injection).2.Spares
      fixed top fragment := by
  induction elements generalizing injection with
  | nil => exact h
  | cons element elements ih =>
    have haccept := h.accept (hsubset List.mem_cons_self)
    have hfirst : Build.acceptEach LocalShift.transform (element :: elements) =
        LocalShift.transform.accept element >>= fun _ =>
          Build.acceptEach LocalShift.transform elements :=
      rfl
    rw [hfirst, ExceptT.run_bind]
    change (serve ((LocalShift.transform.accept element).run.bind _)
      injection).2.Spares fixed top fragment
    rw [serve_bind]
    rcases hserve : serve (LocalShift.transform.accept element).run injection with
      ⟨fault | ⟨⟩, middle⟩
    · rw [hserve] at haccept
      exact haccept
    · rw [hserve] at haccept
      exact ih haccept (List.subset_of_cons_subset hsubset)

/-- What becomes of a builder when a fragment is fed to it through a shift. -/
def ofFragment (fixed : Slot) (chain : Chain ω) (ambient : ω)
    (fragment : List Element) : Injection ω :=
  (serve (Build.transformElements fragment LocalShift.transform).run
    { shift := { fixed }, chain, ambient }).2

/-- **A fragment keeps off the slots of its host.**  Whatever the fragment and
the builder, and also where the fragment is refused on the way: a slot that a
pushed element is about is a fixed one, or it was not taken when the injection
started.  The exception is the slot behind the fixed ones, which a wide value
of the fragment in the last fixed slot takes along. -/
theorem transformElements_spares (chain : Chain ω) (ambient : ω) (fixed : Slot)
    (fragment : List Element) :
    ∀ element ∈ (ofFragment fixed chain ambient fragment).pushed,
      ∀ touched, element.Touches touched →
        touched < fixed.toNat ∨ chain.topLocal.toNat ≤ touched ∨
          touched = fixed.toNat ∧ element ∈ fragment ∧
            element.Straddles fixed := by
  have hstart : Spares fixed chain.topLocal.toNat fragment
      { shift := { fixed }, chain, ambient } := by
    refine ⟨rfl, Nat.le_refl _, ?_, ?_⟩
    · intro slot width target hplace
      simp [LocalShift.place?, SlotTable.get?] at hplace
    · intro element hmem
      cases hmem
  have hend := (hstart.acceptEach (List.Subset.refl fragment)).spared
  rwa [ofFragment, LocalShift.transformElements_transform]

/-- A host with a parameter and, behind it, two locals of its own. -/
def hostChain : Chain Unit :=
  .terminal (.buffered (.withInitialLocals 3))

theorem moved_store_spares :
    .store .long 3 ∈
        (ofFragment 1 hostChain () [.load .int 0, .store .long 1]).pushed ∧
      ElementOf.Touches (.store .long 3 : Element) 4 ∧
      (4 < (1 : Slot).toNat ∨ hostChain.topLocal.toNat ≤ 4 ∨
        4 = (1 : Slot).toNat ∧
          .store .long 3 ∈ [(.load .int 0 : Element), .store .long 1] ∧
          ElementOf.Straddles (.store .long 3 : Element) 1) := by
  have hmem : .store .long 3 ∈
      (ofFragment 1 hostChain () [.load .int 0, .store .long 1]).pushed :=
    List.mem_cons_of_mem _ List.mem_cons_self
  have htouches : ElementOf.Touches (.store .long 3 : Element) 4 :=
    ⟨3, .long, rfl, by decide, by decide⟩
  exact ⟨hmem, htouches,
    transformElements_spares hostChain () 1 [.load .int 0, .store .long 1]
      (.store .long 3) hmem 4 htouches⟩

/-- The exception is one: a wide store to the only parameter writes into the
first local of the host. -/
theorem wide_parameter_reaches_host :
    ¬ ∀ (chain : Chain Unit) (fixed : Slot) (fragment : List Element),
      fixed ≤ chain.topLocal →
      ∀ element ∈ (ofFragment fixed chain () fragment).pushed,
        ∀ touched, element.Touches touched →
          touched < fixed.toNat ∨ chain.topLocal.toNat ≤ touched := by
  intro hspares
  have hwide := hspares hostChain 1 [.store .long 0] (by decide) (.store .long 0)
    List.mem_cons_self 1 ⟨0, .long, rfl, by decide, by decide⟩
  revert hwide
  decide

end Injection

end JvmMethod
