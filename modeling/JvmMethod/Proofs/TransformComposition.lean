import JvmMethod.Proofs.ScriptRequests

/-!
# Composing transforms

Transforms may be composed with each other before they are put over a builder,
or they may be put over it one after the other.  It does not matter which, and
it does not matter in which order they are composed.

Both sides are scripts that the builder below answers, and the statements are
equations between scripts.  So both sides make the same requests in the same
order, change the ambient state, which is where transforms keep what they know,
in the same way between them, and end with the same result or the same fault,
whatever the builder below is and whatever it answers.

One thing is left out.  A transform may ask which layers there are below it, and
those are not the same on both sides.

* `Transform.andThen_assoc_id`: composition is associative, and the transform
  that accepts everything as it is does not change what it is composed with.
* `Build.transforming_fuse`: a transform over a transform is the composed
  transform, and feeding elements to a transform is pushing them into it.
-/

namespace JvmMethod

variable {ω α β : Type}

namespace Transform

variable (transform first second third : Transform ω) (layer : Layer)

/-- The input of a transform takes one build after the other. -/
theorem input_bind (build : Build ω α) (next : α → Build ω β) :
    transform.input layer (build >>= next) =
      transform.input layer build >>= fun result =>
        transform.input layer (next result) := by
  change (build >>= next).run.through layer _ =
    (transform.input layer build >>= fun result =>
      transform.input layer (next result)).run
  rw [Build.run_bind, Build.run_bind, Script.through_bind]
  refine congrArg (Script.bind _) (funext fun answer => ?_)
  cases answer <;> rfl

section Oblivious

variable {body : Build ω α} (h : body.run.Asks Request.IsOblivious)
include h

/-- The input of one transform over the input of another. -/
theorem input_input (upper single : Layer) :
    second.input .transforming (first.input upper body) =
      (first.andThen second).input single body :=
  Script.through_through _ .transforming h _ upper single

/-- Nothing goes through a transform that pushes everything as it is. -/
theorem input_acceptAll : acceptAll.input layer body = body :=
  Script.through_push layer h

theorem input_layer (other : Layer) :
    transform.input layer body = transform.input other body :=
  Script.through_layer _ layer h other

end Oblivious

theorem andThen_assoc (h : first.Asks Request.IsOblivious) :
    (first.andThen second).andThen third =
      first.andThen (second.andThen third) := by
  have hfuse {body : Build ω Unit} (hbody : body.run.Asks Request.IsOblivious) :
      third.input .transforming (second.input .transforming body) =
        (second.andThen third).input .transforming body :=
    input_input second third hbody .transforming .transforming
  simp only [andThen, mk.injEq, input_bind, bind_assoc]
  refine ⟨funext fun element => hfuse (h.accept element), ?_, ?_⟩
  · rw [hfuse h.atStart]
    rfl
  · rw [← bind_assoc, hfuse h.atEnd, bind_assoc]
    rfl

theorem acceptAll_andThen : acceptAll.andThen first = first := by
  have haccept (element : Element) :
      first.input .transforming (Build.push element) = first.accept element :=
    Script.bind_done (first.accept element).run
  cases first with
  | mk accept atStart atEnd =>
    simp only [andThen, mk.injEq]
    exact ⟨funext haccept, bind_pure atStart, pure_bind () fun _ => atEnd⟩

theorem andThen_acceptAll (h : first.Asks Request.IsOblivious) :
    first.andThen acceptAll = first := by
  obtain ⟨haccept, hstart, hend⟩ := h
  cases first with
  | mk accept atStart atEnd =>
    simp only [andThen, mk.injEq]
    refine ⟨funext fun element => input_acceptAll .transforming (haccept element),
      ?_, ?_⟩
    · rw [input_acceptAll .transforming hstart]
      exact pure_bind () fun _ => atStart
    · rw [input_acceptAll .transforming hend]
      exact bind_pure atEnd

/-- **Composition of transforms** is associative, hooks included, and the
transform that accepts everything as it is may be composed on either side. -/
theorem andThen_assoc_id (h : first.Asks Request.IsOblivious) :
    (first.andThen second).andThen third = first.andThen (second.andThen third) ∧
      acceptAll.andThen first = first ∧ first.andThen acceptAll = first :=
  ⟨andThen_assoc first second third h, acceptAll_andThen first,
    andThen_acceptAll first h⟩

/-- Puts a new label in front of every element, and a return behind the last. -/
def labelling : Transform ω where
  accept element := do
    let _ ← Build.newBoundLabel
    Build.push element
  atEnd := Build.push (.methodReturn .void)

/-- Refuses to throw. -/
def refusing : Transform ω where
  accept element :=
    if element = .athrow then throw .voidLocal else Build.push element

theorem shift_andThen_assoc_id :
    (LocalShift.transform.Asks Request.IsOblivious) ∧
      (LocalShift.transform.andThen labelling).andThen refusing =
        LocalShift.transform.andThen (labelling.andThen refusing) ∧
      acceptAll.andThen LocalShift.transform = LocalShift.transform ∧
      LocalShift.transform.andThen acceptAll = LocalShift.transform := by
  have hshift : LocalShift.transform.Asks Request.IsOblivious :=
    LocalShift.asks_transform (fun _ => trivial) fun _ => trivial
  exact ⟨hshift, andThen_assoc_id LocalShift.transform labelling refusing hshift⟩

end Transform

namespace Build

/-- Pushes elements one after the other. -/
def pushEach : List Element → Build ω Unit
  | [] => pure ()
  | element :: elements => do
      push element
      pushEach elements

/-- To push elements into a transform is to give them to it. -/
theorem input_pushEach (transform : Transform ω) (layer : Layer)
    (elements : List Element) :
    transform.input layer (pushEach elements) =
      acceptEach transform elements := by
  induction elements with
  | nil => rfl
  | cons element elements ih =>
    have hpush : transform.input layer (push element) = transform.accept element :=
      Script.bind_done (transform.accept element).run
    simp only [pushEach, acceptEach, Transform.input_bind, hpush, ih]

/-- **A transform over a transform** is the composed transform over the builder,
whatever is done with it, and feeding elements to a transform is pushing them
into it. -/
theorem transforming_fuse (first second : Transform ω) (body : Build ω Unit)
    (hfirst : first.Asks Request.IsOblivious)
    (hbody : body.run.Asks Request.IsOblivious) :
    transforming second (transforming first body) =
        transforming (first.andThen second) body ∧
      ∀ (transform : Transform ω) (elements : List Element),
        transformElements elements transform =
          transforming transform (pushEach elements) := by
  constructor
  · have hlayer {build : Build ω Unit} (hbuild : build.run.Asks Request.IsOblivious) :
        second.input .chained build = second.input .transforming build :=
      second.input_layer .chained hbuild .transforming
    have hinput := Transform.asks_input hfirst hbody .chained
    simp only [transforming, Transform.andThen, Transform.input_bind, bind_assoc]
    rw [hlayer hfirst.atStart, hlayer hinput, hlayer hfirst.atEnd,
      Transform.input_input first second hbody .chained .chained]
    rfl
  · intro transform elements
    simp only [transformElements, transforming, input_pushEach]

/-- A block with a local of its own. -/
def storeInBlock : Build ω Unit :=
  block do
    let slot ← allocate .int
    push (.store .int slot)

theorem shift_transforming_fuse :
    LocalShift.transform.Asks Request.IsOblivious ∧
      (storeInBlock (ω := LocalShift)).run.Asks Request.IsOblivious ∧
      transforming Transform.labelling
          (transforming LocalShift.transform storeInBlock) =
        transforming (LocalShift.transform.andThen Transform.labelling)
          storeInBlock ∧
      ∀ (transform : Transform LocalShift) (elements : List Element),
        transformElements elements transform =
          transforming transform (pushEach elements) := by
  have hshift : LocalShift.transform.Asks Request.IsOblivious :=
    LocalShift.asks_transform (fun _ => trivial) fun _ => trivial
  have hbody : (storeInBlock (ω := LocalShift)).run.Asks Request.IsOblivious := by
    refine asks_block (fun _ hoblivious _ => hoblivious) ?_
    exact asks_bind ⟨trivial, fun _ => trivial⟩ fun slot =>
      ⟨trivial, fun _ => trivial⟩
  exact ⟨hshift, hbody,
    transforming_fuse LocalShift.transform Transform.labelling storeInBlock hshift
      hbody⟩

end Build

end JvmMethod
