import JvmMethod.Structured
import JvmMethod.LocalShift

/-!
# What scripts ask for

A script may make any request, and which ones it makes may depend on what it was
answered.  `Script.Asks` says that a script stays within the requests that are
allowed, whatever it is answered.  This is how it is said that a producer does
not look at the layers below it, or that a transform leaves the local slots
alone.

What is put together out of scripts that stay within their requests does so,
too: one script after the other, a script inside a block, a script whose pushes
go through a transform.

The other half of the module is about layers, which are functions from scripts
to scripts:

* `Script.inBlock_bind`, `Script.through_bind`: a layer works on one script
  after the other as on the two in one.
* `Script.through_through`: two transforms on top of each other are one.
-/

namespace JvmMethod

variable {ω σ α β : Type}

/-- The request is not one for the layers. -/
def Request.IsOblivious : Request → Prop
  | .layers => False
  | _ => True

/-- The request takes no local slot. -/
def Request.KeepsSlots : Request → Prop
  | .allocate _ | .terminalAllocate _ => False
  | _ => True

/-- The request takes no local slot past the layers. -/
def Request.KeepsToLayers : Request → Prop
  | .terminalAllocate _ => False
  | _ => True

namespace Script

/-- Whatever it is answered, the script makes no other requests than those that
are allowed. -/
def Asks (allowed : Request → Prop) : Script ω α → Prop
  | .done _ => True
  | .ask request next =>
      allowed request ∧ ∀ answer, (next answer).Asks allowed
  | .read next => ∀ state, (next state).Asks allowed
  | .change _ next => next.Asks allowed

variable {allowed : Request → Prop} {script : Script ω α}

theorem asks_any (script : Script ω α) : script.Asks fun _ => True := by
  induction script with
  | done => trivial
  | ask _ _ ih => exact ⟨trivial, ih⟩
  | read _ ih => exact ih
  | change _ _ ih => exact ih

theorem Asks.bind {next : α → Script ω β} (h : script.Asks allowed)
    (hnext : ∀ result, (next result).Asks allowed) :
    (script.bind next).Asks allowed := by
  induction script with
  | done result => exact hnext result
  | ask _ _ ih => exact ⟨h.1, fun answer => ih answer (h.2 answer)⟩
  | read _ ih => exact fun state => ih state (h state)
  | change _ _ ih => exact ih h

/-- A block answers some requests, and makes none of its own. -/
theorem Asks.inBlock (h : script.Asks allowed) (block : Block) :
    (script.inBlock block).Asks allowed := by
  induction script generalizing block with
  | done => trivial
  | ask request _ ih =>
    obtain ⟨hrequest, hnext⟩ := h
    cases request with
    | allocate kind => exact ih _ (hnext _) _
    | topLocal => exact ih _ (hnext _) _
    | _ => exact ⟨hrequest, fun answer => ih _ (hnext _) _⟩
  | read _ ih => exact fun state => ih state (h state) block
  | change _ _ ih => exact ih h block

/-- A transform makes its requests in place of the pushes. -/
theorem Asks.through {accept : Element → Script ω (Except Fault Unit)}
    (h : script.Asks allowed) (layer : Layer)
    (haccept : ∀ element, (accept element).Asks allowed) :
    (script.through layer accept).Asks allowed := by
  induction script with
  | done => trivial
  | ask request _ ih =>
    obtain ⟨hrequest, hnext⟩ := h
    cases request with
    | push element =>
      exact (haccept element).bind fun answer => ih answer (hnext answer)
    | layers => exact ⟨hrequest, fun layers => ih _ (hnext _)⟩
    | _ => exact ⟨hrequest, fun answer => ih _ (hnext _)⟩
  | read _ ih => exact fun state => ih state (h state)
  | change _ _ ih => exact ih h

theorem Asks.zoom {script : Script σ α} (h : script.Asks allowed)
    (focus : Focus ω σ) : (script.zoom focus).Asks allowed := by
  induction script with
  | done => trivial
  | ask _ _ ih => exact ⟨h.1, fun answer => ih answer (h.2 answer)⟩
  | read _ ih => exact fun state => ih _ (h _)
  | change _ _ ih => exact ih h

/-- A block on one script after the other. -/
theorem inBlock_bind (script : Script ω α) (next : α → Script ω β)
    (block : Block) :
    (script.bind next).inBlock block =
      (script.inBlock block).bind fun (result, block) =>
        (next result).inBlock block := by
  induction script generalizing block with
  | done => rfl
  | ask request _ ih =>
    cases request <;> simp only [Script.bind, Script.inBlock, ih]
  | read _ ih => simp only [Script.bind, Script.inBlock, ih]
  | change _ _ ih => simp only [Script.bind, Script.inBlock, ih]

variable (accept : Element → Script ω (Except Fault Unit)) (layer : Layer)

/-- A transform on one script after the other. -/
theorem through_bind (script : Script ω α) (next : α → Script ω β) :
    (script.bind next).through layer accept =
      (script.through layer accept).bind fun result =>
        (next result).through layer accept := by
  induction script with
  | done => rfl
  | ask request _ ih =>
    cases request <;>
      simp only [Script.bind, Script.through, ih, Script.bind_assoc]
  | read _ ih => simp only [Script.bind, Script.through, ih]
  | change _ _ ih => simp only [Script.bind, Script.through, ih]

/-- **Two transforms on top of each other** are one, which gives to the lower
one what the upper one pushes.  Only whoever asks for the layers can tell. -/
theorem through_through (h : script.Asks Request.IsOblivious)
    (upper : Element → Script ω (Except Fault Unit)) (upperLayer : Layer)
    (single : Layer) :
    (script.through upperLayer upper).through layer accept =
      script.through single fun element =>
        (upper element).through layer accept := by
  induction script with
  | done => rfl
  | ask request _ ih =>
    obtain ⟨hrequest, hnext⟩ := h
    cases request with
    | push element =>
      simp only [Script.through, through_bind]
      exact congrArg _ (funext fun answer => ih answer (hnext answer))
    | layers => cases hrequest
    | _ => exact congrArg (Script.ask _) (funext fun answer => ih _ (hnext _))
  | read _ ih => exact congrArg Script.read (funext fun state => ih _ (h state))
  | change f _ ih => exact congrArg (Script.change f) (ih h)

/-- A layer that pushes everything as it is. -/
theorem through_push (h : script.Asks Request.IsOblivious) :
    script.through layer (fun element => .send (.push element)) = script := by
  induction script with
  | done => rfl
  | ask request _ ih =>
    obtain ⟨hrequest, hnext⟩ := h
    cases request with
    | layers => cases hrequest
    | _ => exact congrArg (Script.ask _) (funext fun answer => ih _ (hnext _))
  | read _ ih => exact congrArg Script.read (funext fun state => ih _ (h state))
  | change f _ ih => exact congrArg (Script.change f) (ih h)

/-- The name of the layer is for those who ask for the layers. -/
theorem through_layer (h : script.Asks Request.IsOblivious) (other : Layer) :
    script.through layer accept = script.through other accept := by
  have hfused := through_through accept layer h
    (fun element => .send (.push element)) layer
  have hsingle := (hfused layer).symm.trans (hfused other)
  simpa only [Script.send, Script.through, Script.bind_done] using hsingle

end Script

namespace Build

/-- One build after the other, which stops at a fault. -/
theorem run_bind (build : Build ω α) (next : α → Build ω β) :
    (build >>= next).run = build.run.bind fun answer =>
      match answer with
      | .ok result => (next result).run
      | .error fault => .done (.error fault) := by
  refine congrArg (Script.bind build.run) (funext fun answer => ?_)
  cases answer <;> rfl

variable {allowed : Request → Prop}

theorem asks_bind {build : Build ω α} {next : α → Build ω β}
    (h : build.run.Asks allowed)
    (hnext : ∀ result, (next result).run.Asks allowed) :
    (build >>= next).run.Asks allowed := by
  rw [run_bind]
  refine h.bind fun answer => ?_
  cases answer with
  | ok result => exact hnext result
  | error fault => trivial

theorem asks_within {body : Build ω α} (h : body.run.Asks allowed)
    (block : Block) : (within block body).run.Asks allowed := by
  refine (h.inBlock block).bind fun answer => ?_
  obtain ⟨result | fault, last⟩ := answer <;> trivial

section Blocks

variable (hown : ∀ request : Request,
  request.IsOblivious → request.KeepsSlots → allowed request)
include hown

theorem asks_openBlockAt (startLabel breakLabel : Label) :
    (openBlockAt startLabel breakLabel : Build ω Block).run.Asks allowed := by
  refine asks_bind ⟨hown _ trivial trivial, fun _ => trivial⟩ fun stopLabel => ?_
  refine asks_bind ⟨hown _ trivial trivial, fun _ => trivial⟩ fun topLocal => ?_
  refine asks_bind ⟨hown _ trivial trivial, fun _ => trivial⟩ fun terminal => ?_
  exact asks_bind ⟨hown _ trivial trivial, fun _ => trivial⟩ fun _ => trivial

theorem asks_openBlock (breakLabel : Label) :
    (openBlock breakLabel : Build ω Block).run.Asks allowed :=
  asks_bind ⟨hown _ trivial trivial, fun _ => trivial⟩ fun startLabel =>
    asks_openBlockAt hown startLabel breakLabel

theorem asks_closeBlock (block : Block) :
    (closeBlock block : Build ω BlockSummary).run.Asks allowed := by
  refine asks_bind ⟨hown _ trivial trivial, fun _ => trivial⟩ fun _ => ?_
  refine asks_bind ⟨hown _ trivial trivial, fun _ => trivial⟩ fun terminal => ?_
  simp only
  split <;> trivial

/-- A block around a body takes no slots of its own, and does not look at the
layers. -/
theorem asks_block {body : Build ω Unit} (h : body.run.Asks allowed) :
    (block body).run.Asks allowed := by
  refine asks_bind ⟨hown _ trivial trivial, fun _ => trivial⟩ fun breakLabel => ?_
  refine asks_bind (asks_openBlock hown breakLabel) fun opened => ?_
  refine asks_bind (asks_within h opened) fun last => ?_
  refine asks_bind (asks_closeBlock hown last.2) fun _ => ?_
  exact ⟨hown _ trivial trivial, fun _ => trivial⟩

end Blocks

end Build

/-- All that a transform asks for is allowed. -/
structure Transform.Asks (allowed : Request → Prop) (transform : Transform ω) :
    Prop where
  accept : ∀ element, (transform.accept element).run.Asks allowed
  atStart : transform.atStart.run.Asks allowed
  atEnd : transform.atEnd.run.Asks allowed

theorem Transform.asks_input {allowed : Request → Prop} {transform : Transform ω}
    (h : transform.Asks allowed) {body : Build ω α}
    (hbody : body.run.Asks allowed) (layer : Layer) :
    (transform.input layer body).run.Asks allowed :=
  hbody.through layer h.accept

namespace LocalShift

variable {allowed : Request → Prop} (hallocate : ∀ kind, allowed (.allocate kind))
include hallocate

theorem asks_shift (slot : Slot) (kind : Kind) :
    (shift slot kind).run.Asks allowed := by
  refine Build.asks_bind (fun _ => trivial) fun state => ?_
  split
  · trivial
  split
  · trivial
  simp only
  cases state.slots.get? (key state.fixed slot kind.width) with
  | some shifted => trivial
  | none =>
    refine Build.asks_bind ⟨hallocate kind, fun _ => trivial⟩ fun shifted => ?_
    exact Build.asks_bind trivial fun _ => trivial

/-- A shift pushes and allocates, and that is all. -/
theorem asks_transform (hpush : ∀ element, allowed (.push element)) :
    transform.Asks allowed where
  accept element := by
    simp only [transform]
    cases element.localSlot? with
    | none => exact ⟨hpush element, fun _ => trivial⟩
    | some place =>
      exact Build.asks_bind (asks_shift hallocate place.1 place.2) fun shifted =>
        ⟨hpush _, fun _ => trivial⟩
  atStart := trivial
  atEnd := trivial

end LocalShift

end JvmMethod
