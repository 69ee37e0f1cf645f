import JvmMethod.Proofs.RefusedPushes
import JvmMethod.Scope
import JvmMethod.Transform

/-!
# Chains of builders

A *chain* is a stack of builders that stands over a terminal and remembers what
has happened to it: which slots its blocks have handed out, and what its
terminal has got.  Running a script on a chain is running it through the layers
of the chain, one after the other.

The next free slot of a chain is that of its uppermost block, or of the terminal
if no block is open.  The two facts about it that hold on every chain, whatever
the transforms in it do:

* `Chain.topLocal_le_run`: it never decreases.
* `Chain.allocate_eq_ok`: a slot that is handed out is the next free one.
-/

namespace JvmMethod

variable {ω α β : Type}

/-- A stack of builders over a terminal. -/
inductive Chain (ω : Type) where
  | terminal (state : Terminal)
  | block (opened : Block) (below : Chain ω)
  | transform (layer : Layer) (stage : Transform ω) (below : Chain ω)

/-- Whatever is answered, the result of the script has the property. -/
def Script.Ensures (property : α → Prop) : Script ω α → Prop
  | .done result => property result
  | .ask _ next => ∀ answer, (next answer).Ensures property
  | .read next => ∀ state, (next state).Ensures property
  | .change _ next => next.Ensures property

namespace Chain

/-- Runs a script on a chain, with an ambient state. -/
def run : Chain ω → {α : Type} → Script ω α → ω → α × Chain ω × ω
  | .terminal state, _, script, ambient =>
      let (result, state, ambient) := script.run state ambient
      (result, .terminal state, ambient)
  | .block opened below, _, script, ambient =>
      let ((result, opened), below, ambient) :=
        below.run (script.inBlock opened) ambient
      (result, .block opened below, ambient)
  | .transform layer stage below, _, script, ambient =>
      let (result, below, ambient) :=
        below.run
          (script.through layer fun element => (stage.accept element).run)
          ambient
      (result, .transform layer stage below, ambient)

/-- The next slot that a chain hands out. -/
def topLocal : Chain ω → Slot
  | .terminal state => state.topLocal
  | .block opened _ => opened.topLocal
  | .transform _ _ below => below.topLocal

end Chain

namespace Script

variable {property : α → Prop} {script : Script ω α}

theorem Ensures.mono {other : α → Prop} (h : script.Ensures property)
    (himp : ∀ result, property result → other result) :
    script.Ensures other := by
  induction script with
  | done result => exact himp result h
  | ask _ _ ih => exact fun answer => ih answer (h answer)
  | read _ ih => exact fun state => ih state (h state)
  | change _ _ ih => exact ih h

theorem Ensures.bind {other : β → Prop} {next : α → Script ω β}
    (h : script.Ensures property)
    (hnext : ∀ result, property result → (next result).Ensures other) :
    (script.bind next).Ensures other := by
  induction script with
  | done result => exact hnext result h
  | ask request _ ih => exact fun answer => ih answer (h answer)
  | read _ ih => exact fun state => ih state (h state)
  | change f _ ih => exact ih h

theorem ensures_true (script : Script ω α) : script.Ensures fun _ => True := by
  induction script with
  | done => trivial
  | ask _ _ ih => exact ih
  | read _ ih => exact ih
  | change _ _ ih => exact ih

/-- A transform has no say in the result of a script. -/
theorem Ensures.through (h : script.Ensures property) (layer : Layer)
    (accept : Element → Script ω (Except Fault Unit)) :
    (script.through layer accept).Ensures property := by
  induction script with
  | done => exact h
  | ask request next ih =>
    cases request with
    | push element =>
      exact (accept element).ensures_true.bind
        fun answer _ => ih answer (h answer)
    | layers => exact fun layers => ih _ (h _)
    | _ => exact fun answer => ih answer (h answer)
  | read _ ih => exact fun state => ih state (h state)
  | change _ _ ih => exact ih h

end Script

/-- A block hands out slots upwards. -/
theorem Block.topLocal_le_allocate (block : Block) (kind : Kind) :
    block.topLocal ≤ (block.allocate kind).2.topLocal := by
  unfold Block.allocate
  split
  · exact UInt16.le_refl _
  · next top hclaim =>
    have := toNat_of_claimSlot hclaim
    exact UInt16.le_iff_toNat_le.2 (by simp only; omega)

@[simp] theorem Block.topLocal_noteAnswer (block : Block) (element : Element)
    (answer : Except Fault Unit) :
    (block.noteAnswer element answer).topLocal = block.topLocal := by
  cases answer <;> rfl

/-- A block has no say in the result of a script, and its own slots are handed
out upwards. -/
theorem Script.Ensures.inBlock {property : α → Prop} {script : Script ω α}
    (h : script.Ensures property) (block : Block) :
    (script.inBlock block).Ensures fun (result, last) =>
      property result ∧ block.topLocal ≤ last.topLocal := by
  induction script generalizing block with
  | done => exact ⟨h, UInt16.le_refl _⟩
  | ask request next ih =>
    cases request with
    | push element =>
      intro answer
      have := ih answer (h answer) (block.noteAnswer element answer)
      simpa using this
    | allocate kind =>
      have hlast := ih _ (h (block.allocate kind).1) (block.allocate kind).2
      refine hlast.mono ?_
      intro pair h
      obtain ⟨result, last⟩ := pair
      obtain ⟨hresult, hle⟩ := h
      exact ⟨hresult, UInt16.le_trans (block.topLocal_le_allocate kind) hle⟩
    | topLocal => exact ih _ (h _) block
    | layers => exact fun layers => ih _ (h _) block
    | _ => exact fun answer => ih answer (h answer) block
  | read _ ih => exact fun state => ih state (h state) block
  | change _ _ ih => exact ih h block

namespace Direct

variable (direct : Direct) (element : Element)

/-- Whether or not an element is taken, it takes no slot. -/
theorem topLocal_push : (direct.push element).2.topLocal = direct.topLocal := by
  rcases hpush : direct.push element with ⟨fault | ⟨⟩, next⟩
  · obtain ⟨⟨code, fixups, rfl⟩, -⟩ := push_error hpush
    rfl
  · obtain ⟨-, rfl⟩ := push_eq_ok_iff.1 hpush
    rfl

end Direct

namespace Terminal

theorem topLocal_push (terminal : Terminal) (element : Element) :
    (terminal.push element).2.topLocal = terminal.topLocal := by
  cases terminal with
  | direct state => exact state.topLocal_push element
  | buffered state =>
    cases element with
    | label label =>
      simp only [push, Buffered.push]
      split <;> rfl
    | _ => rfl

/-- The slot that a terminal hands out is its next free one, and a terminal that
has none to hand out stays as it is. -/
theorem allocate_spec (terminal : Terminal) (kind : Kind) :
    match terminal.allocate kind with
    | (.ok slot, next) =>
        slot = terminal.topLocal ∧ claimSlot slot kind = .ok next.topLocal
    | (.error _, next) => next = terminal := by
  cases terminal with
  | direct state =>
    simp only [allocate, Direct.allocate]
    cases hclaim : claimSlot state.topLocal kind with
    | error fault => rfl
    | ok top => exact ⟨rfl, hclaim⟩
  | buffered state =>
    simp only [allocate, Buffered.allocate]
    cases hclaim : claimSlot state.topLocal kind with
    | error fault => rfl
    | ok top => exact ⟨rfl, hclaim⟩

theorem allocate_of_error {kind : Kind} {fault : Fault} (terminal : Terminal)
    (h : claimSlot terminal.topLocal kind = .error fault) :
    terminal.allocate kind = (.error fault, terminal) := by
  cases terminal with
  | direct state =>
    have hclaim : claimSlot state.topLocal kind = .error fault := h
    simp only [allocate, Direct.allocate, hclaim]
  | buffered state =>
    have hclaim : claimSlot state.topLocal kind = .error fault := h
    simp only [allocate, Buffered.allocate, hclaim]

theorem allocate_of_ok {kind : Kind} {top : Slot} (terminal : Terminal)
    (h : claimSlot terminal.topLocal kind = .ok top) :
    ∃ next, terminal.allocate kind = (.ok terminal.topLocal, next) ∧
      next.topLocal = top := by
  cases terminal with
  | direct state =>
    have hclaim : claimSlot state.topLocal kind = .ok top := h
    simp only [allocate, Direct.allocate, hclaim]
    exact ⟨_, rfl, rfl⟩
  | buffered state =>
    have hclaim : claimSlot state.topLocal kind = .ok top := h
    simp only [allocate, Buffered.allocate, hclaim]
    exact ⟨_, rfl, rfl⟩

theorem topLocal_le_allocate (terminal : Terminal) (kind : Kind) :
    terminal.topLocal ≤ (terminal.allocate kind).2.topLocal := by
  have hspec := terminal.allocate_spec kind
  rcases hallocate : terminal.allocate kind with ⟨fault | slot, next⟩
  · rw [hallocate] at hspec
    have hsame : next = terminal := hspec
    rw [hsame]
    exact UInt16.le_refl _
  · rw [hallocate] at hspec
    obtain ⟨rfl, hclaim⟩ := hspec
    have := toNat_of_claimSlot hclaim
    exact UInt16.le_iff_toNat_le.2 (by simp only; omega)

/-- A terminal hands out slots upwards. -/
theorem topLocal_le_answer (terminal : Terminal) (request : Request) :
    terminal.topLocal ≤ (terminal.answer request).2.topLocal := by
  cases request with
  | push element | terminalPush element =>
    exact UInt16.le_of_eq (terminal.topLocal_push element).symm
  | allocate kind | terminalAllocate kind => exact terminal.topLocal_le_allocate kind
  | freshLabel => cases terminal <;> exact UInt16.le_refl _
  | topLocal | terminal | layers => exact UInt16.le_refl _

end Terminal

/-- What a terminal hands out meanwhile goes upwards. -/
theorem Script.topLocal_le_run (script : Script ω α) (terminal : Terminal)
    (ambient : ω) :
    terminal.topLocal ≤ (script.run terminal ambient).2.1.topLocal := by
  induction script generalizing terminal ambient with
  | done => exact UInt16.le_refl _
  | ask request next ih =>
    exact UInt16.le_trans (terminal.topLocal_le_answer request) (ih _ _ _)
  | read _ ih => exact ih _ _ _
  | change _ _ ih => exact ih _ _

theorem Script.Ensures.run {property : α → Prop} {script : Script ω α}
    (h : script.Ensures property) (terminal : Terminal) (ambient : ω) :
    property (script.run terminal ambient).1 := by
  induction script generalizing terminal ambient with
  | done => exact h
  | ask request next ih => exact ih _ (h _) _ _
  | read _ ih => exact ih _ (h _) _ _
  | change _ _ ih => exact ih h _ _

namespace Chain

variable {property : α → Prop} {script : Script ω α}

/-- What a script ensures holds on every chain. -/
theorem run_ensures (chain : Chain ω) (h : script.Ensures property)
    (ambient : ω) : property (chain.run script ambient).1 := by
  induction chain generalizing α with
  | terminal state => exact h.run state ambient
  | block opened below ih => exact (ih (h.inBlock opened)).1
  | transform layer stage below ih => exact ih (h.through layer _)

/-- **The next free slot of a chain never decreases.** -/
theorem topLocal_le_run (chain : Chain ω) (script : Script ω α) (ambient : ω) :
    chain.topLocal ≤ (chain.run script ambient).2.1.topLocal := by
  induction chain generalizing α with
  | terminal state => exact script.topLocal_le_run state ambient
  | block opened below ih =>
    have hblock := script.ensures_true.inBlock opened
    exact (below.run_ensures hblock ambient).2
  | transform layer stage below ih => exact ih _

@[simp] theorem run_done (chain : Chain ω) (result : α) (ambient : ω) :
    chain.run (.done result) ambient = (result, chain, ambient) := by
  induction chain generalizing α with
  | terminal state => rfl
  | block opened below ih => simp [run, Script.inBlock, ih]
  | transform layer stage below ih => simp [run, Script.through, ih]

/-- The next free slot is what a chain says when it is asked for it. -/
theorem run_topLocal (chain : Chain ω) (ambient : ω) :
    chain.run (.send .topLocal) ambient = (chain.topLocal, chain, ambient) := by
  induction chain with
  | terminal state => rfl
  | block opened below ih =>
    simp only [run, Script.send, Script.inBlock, run_done, topLocal]
  | transform layer stage below ih =>
    have hbelow : below.run (.ask .topLocal fun answer => .done answer) ambient =
        (below.topLocal, below, ambient) := ih
    simp only [run, Script.send, Script.through, hbelow, topLocal]

/-- **The slot that a chain hands out is its next free one.** -/
theorem allocate_eq_ok {chain next : Chain ω} {ambient after : ω} {kind : Kind}
    {slot : Slot}
    (h : chain.run (.send (.allocate kind)) ambient = (.ok slot, next, after)) :
    slot = chain.topLocal ∧ claimSlot slot kind = .ok next.topLocal := by
  induction chain generalizing next with
  | terminal state =>
    have hspec := state.allocate_spec kind
    rcases hallocate : state.allocate kind with ⟨answer, last⟩
    simp only [run, Script.send, Script.run, Terminal.answer, hallocate,
      Prod.mk.injEq] at h
    obtain ⟨rfl, rfl, -⟩ := h
    rwa [hallocate] at hspec
  | block opened below ih =>
    simp only [run, Script.send, Script.inBlock, run_done, Prod.mk.injEq] at h
    obtain ⟨hslot, rfl, -⟩ := h
    simp only [Block.allocate] at hslot ⊢
    cases hclaim : claimSlot opened.topLocal kind with
    | error fault => simp [hclaim] at hslot
    | ok top =>
      simp only [hclaim, Except.ok.injEq] at hslot
      subst hslot
      exact ⟨rfl, hclaim⟩
  | transform layer stage below ih =>
    simp only [run, Script.send, Script.through, Prod.mk.injEq] at h
    obtain ⟨hslot, rfl, hafter⟩ := h
    have hbelow : below.run (.send (.allocate kind)) ambient =
        (.ok slot, (below.run (.send (.allocate kind)) ambient).2.1, after) :=
      Prod.ext hslot (Prod.ext rfl hafter)
    have hclaimed := ih hbelow
    exact hclaimed

end Chain

end JvmMethod
