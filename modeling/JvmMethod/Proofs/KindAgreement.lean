import JvmMethod.Proofs.DescriptorReading
import JvmMethod.Proofs.ShiftHistory

/-!
# The two descriptions of a variable agree

A local variable has a type, and may have a generic signature besides.  The kind
of its values is found by reading the descriptor of the type in the one case, and
in the other case by a look at the first two characters of the signature.  Where
the signature is a descriptor, both come to the same, since no reference type is
written with a single letter.

So a shift that meets both descriptions of a variable does not take two slots for
it, whichever comes first and whatever comes in between.

* `Kind.ofSignature_render`: the kind of a field type can be told from how it is
  written.
* `Injection.movesTo_again`: elements about the same slot and kind are moved to
  the same slot.
* `kinds_agree`: both, for a variable that is described twice.
-/

namespace JvmMethod

/-- A written reference type is longer than a letter. -/
theorem RefType.exists_two_chars (type : RefType) :
    ∃ c d left, type.chars = c :: d :: left := by
  have hlong : 2 ≤ type.chars.length := by
    cases type with
    | object name | objectArray extraDims name =>
      simp only [chars, BinaryName.descriptorChars, List.length_append,
        List.length_cons, List.length_nil]
      omega
    | primitiveArray extraDims element =>
      simp only [chars, BaseType.chars, List.length_append, List.length_replicate,
        List.length_cons, List.length_nil]
      omega
  cases hchars : type.chars with
  | nil => simp [hchars] at hlong
  | cons c others =>
    cases others with
    | nil => simp [hchars] at hlong
    | cons d left => exact ⟨c, d, left, rfl⟩

namespace Kind

theorem width_ofField (type : FieldType) : (ofField type).width = type.width := by
  cases type with
  | base type => cases type <;> rfl
  | ref type => rfl

/-- **The kind of a written field type.** -/
theorem ofSignature_render (type : FieldType) :
    ofSignature type.render = ofField type := by
  have htext : type.render.toList = type.chars := String.toList_ofList ..
  unfold ofSignature
  rw [htext]
  cases type with
  | base element => cases element <;> rfl
  | ref type =>
    obtain ⟨c, d, left, hchars⟩ := type.exists_two_chars
    simp only [FieldType.chars, hchars]
    rfl

/-- A descriptor of a kind is `V`, or a written field type. -/
theorem ofDescriptor_eq_ok {text : String} {kind : Kind}
    (h : ofDescriptor text = .ok kind) :
    (text = "V" ∧ kind = .void) ∨
      ∃ type, FieldType.ofString text = .ok type ∧ text = type.render ∧
        kind = ofField type := by
  unfold ofDescriptor at h
  split at h
  · next hvoid =>
    cases h
    exact .inl ⟨hvoid, rfl⟩
  · cases hread : FieldType.ofString text with
    | error fault =>
      rw [hread] at h
      cases h
    | ok type =>
      rw [hread] at h
      cases h
      exact .inr ⟨type, rfl, FieldType.takesWritten.whole_iff.1 hread, rfl⟩

end Kind

namespace Injection

variable {ω : Type}

/-- What has become of a shift and its builder after the steps of a session. -/
def after (injection : Injection ω) (steps : List (ShiftStep ω)) : Injection ω :=
  (performAll [] injection steps).2

/-- The element is emitted with another slot when it is taken in. -/
def MovesTo (injection : Injection ω) (element : Element) (target : Slot) : Prop :=
  (injection.takeIn element).2.pushed =
    injection.pushed ++ [element.withLocalSlot target]

variable {injection : Injection ω} {fixed slot target : Slot} {kind : Kind}
  {element : Element} {history : List ShiftEvent}

/-- An element is moved to where its slot is found. -/
theorem movesTo_iff (hslot : element.localSlot? = some (slot, kind)) :
    injection.MovesTo element target ↔
      (injection.lookUp slot kind).1 = .ok target := by
  have htakes := injection.takesIn element
  have hsame := injection.pushed_lookUp slot kind
  unfold MovesTo
  cases hanswer : (injection.lookUp slot kind).1 with
  | error fault =>
    rw [(htakes.refused slot kind hslot fault hanswer).2, hsame]
    simp
  | ok found =>
    obtain ⟨-, htake, hfound, -⟩ := htakes.moved slot kind hslot found hanswer
    have hpushes : (injection.lookUp slot kind).2.Pushes
        (element.withLocalSlot found)
        (serve (.send (.push (element.withLocalSlot found)))
          (injection.lookUp slot kind).2).2 :=
      (injection.lookUp slot kind).2.pushes_serve _
    rw [htake, hpushes.pushed, hsame, List.append_cancel_left_eq, List.cons.injEq,
      Except.ok.injEq]
    constructor
    · intro h
      obtain ⟨helement, -⟩ := h
      rw [helement, ElementOf.localSlot?_withLocalSlot hslot] at hfound
      cases hfound
      rfl
    · rintro rfl
      exact ⟨rfl, rfl⟩

/-- What happens in a session is put behind what has happened before. -/
theorem performAll_eq (history : List ShiftEvent) (injection : Injection ω)
    (steps : List (ShiftStep ω)) :
    performAll history injection steps =
      (history ++ (performAll [] injection steps).1, injection.after steps) := by
  unfold after
  induction steps generalizing history injection with
  | nil => simp [performAll]
  | cons step steps ih =>
    simp only [performAll]
    rw [ih (history ++ _), ih ([] ++ _)]
    simp only [List.nil_append, List.append_assoc]

theorem after_cons (injection : Injection ω) (step : ShiftStep ω)
    (steps : List (ShiftStep ω)) :
    injection.after (step :: steps) = (injection.perform step).2.after steps := by
  simp only [after, performAll]
  rw [performAll_eq]
  rfl

/-- One step in the middle of a session. -/
theorem after_append_cons (injection : Injection ω)
    (before between : List (ShiftStep ω)) (step : ShiftStep ω) :
    injection.after (before ++ step :: between) =
      ((injection.after before).perform step).2.after between := by
  induction before generalizing injection with
  | nil => exact after_cons injection step between
  | cons first before ih =>
    rw [List.cons_append, after_cons, after_cons]
    exact ih _

/-- What has been found is found again, whatever was done in between. -/
theorem lookUp_again (h : injection.Records fixed history)
    (hslot : element.localSlot? = some (slot, kind))
    (hfound : (injection.lookUp slot kind).1 = .ok target)
    (between : List (ShiftStep ω)) :
    (((injection.perform (.accept element)).2.after between).lookUp slot kind).1 =
      .ok target := by
  have hnow := answersFrom h.remembers slot kind
  have hvoid : kind ≠ .void := by
    intro hvoid
    have hrefused := (hnow.void hvoid).2.1
    rw [hfound] at hrefused
    cases hrefused
  have hrecords := (h.perform (.accept element)).performAll between
  rw [performAll_eq] at hrecords
  have hlater := answersFrom hrecords.remembers slot kind
  by_cases hfixed : slot < fixed
  · have hsame := (hnow.shared hvoid hfixed).2.1
    rw [hfound] at hsame
    rw [(hlater.shared hvoid hfixed).2.1, hsame]
  have hmoved := UInt16.not_lt.1 hfixed
  refine (hlater.known hvoid hmoved target ?_).2.1
  have hevent : (injection.perform (.accept element)).1 =
      some (.moved element ⟨slot, kind, .ok target⟩) := by
    simp only [perform, hslot, hfound]
  rw [hevent, firstAnswer?_append, firstAnswer?_append]
  cases hearlier : firstAnswer? history slot kind.width with
  | some known =>
    have hsame := (hnow.known hvoid hmoved known hearlier).2.1
    rw [hfound] at hsame
    cases hsame
    rfl
  | none =>
    rw [Option.toList_some, firstAnswer?_singleton rfl]
    simp [Lookup.answer?, Except.toOption]

/-- **Elements about the same slot and kind are moved alike.** -/
theorem movesTo_again {first second : Element}
    (hsame : second.localSlot? = first.localSlot?)
    (hslot : first.localSlot? = some (slot, kind))
    (h : injection.Records fixed history) (hmoved : injection.MovesTo first target)
    (between : List (ShiftStep ω)) :
    ((injection.perform (.accept first)).2.after between).MovesTo second target := by
  rw [movesTo_iff (hsame.trans hslot)]
  exact lookUp_again h hslot ((movesTo_iff hslot).1 hmoved) between

/-- Before anything has happened. -/
theorem records_start (fixed : Slot) (chain : Chain ω) (ambient : ω) :
    Injection.Records fixed [] { shift := { fixed }, chain, ambient } where
  remembers := by
    refine ⟨rfl, ?_⟩
    intro slot width _ _
    simp [SlotTable.get?, firstAnswer?]
  pushed := rfl

end Injection

/-- **The two descriptions of a variable agree.**  The kind of a descriptor is
that of the same text as a signature, and it is as wide as the type that it
describes.  So a variable that is described by its type and by a signature that is
its descriptor is of one kind and in one slot, and in any session with a shift, the
one description is moved to where the other was moved. -/
theorem kinds_agree :
    (∀ (text : String) (kind : Kind), Kind.ofDescriptor text = .ok kind →
      Kind.ofSignature text = kind ∧
        (text ≠ "V" → ∃ type, FieldType.ofString text = .ok type ∧
          kind.width = type.width)) ∧
    ∀ (plain : LocalVariable Label) (generic : LocalVariableType Label),
      generic.slot = plain.slot → generic.signature = plain.type.render →
        (ElementOf.localVariableType generic).localSlot? =
            (ElementOf.localVariable plain).localSlot? ∧
          ∀ (ω : Type) (fixed : Slot) (chain : Chain ω) (ambient : ω)
              (before between : List (ShiftStep ω)) (target : Slot),
            let start : Injection ω := { shift := { fixed }, chain, ambient }
            ((start.after before).MovesTo (.localVariable plain) target →
              (start.after (before ++ .accept (.localVariable plain) :: between)).MovesTo
                (.localVariableType generic) target) ∧
            ((start.after before).MovesTo (.localVariableType generic) target →
              (start.after
                (before ++ .accept (.localVariableType generic) :: between)).MovesTo
                (.localVariable plain) target) := by
  refine ⟨?kinds, ?described⟩
  case kinds =>
    intro text kind h
    obtain ⟨rfl, rfl⟩ | ⟨type, hread, rfl, rfl⟩ := Kind.ofDescriptor_eq_ok h
    · exact ⟨rfl, fun hother => absurd rfl hother⟩
    · exact ⟨Kind.ofSignature_render type,
        fun _ => ⟨type, hread, Kind.width_ofField type⟩⟩
  case described =>
    intro plain generic hslot hsignature
    have hplain : (ElementOf.localVariable plain).localSlot? =
        some (plain.slot, Kind.ofField plain.type) := rfl
    have hgeneric : (ElementOf.localVariableType generic).localSlot? =
        some (plain.slot, Kind.ofField plain.type) := by
      rw [ElementOf.localSlot?, hslot, hsignature, Kind.ofSignature_render]
    refine ⟨hgeneric.trans hplain.symm, ?_⟩
    intro ω fixed chain ambient before between target start
    have hrecords : (start.after before).Records fixed
        (Injection.performAll [] start before).1 :=
      (Injection.records_start fixed chain ambient).performAll before
    rw [Injection.after_append_cons, Injection.after_append_cons]
    exact ⟨fun hmoved => Injection.movesTo_again (hgeneric.trans hplain.symm) hplain
        hrecords hmoved between,
      fun hmoved => Injection.movesTo_again (hplain.trans hgeneric.symm) hgeneric
        hrecords hmoved between⟩

/-- A wide variable of a fragment. -/
def wideVariable : LocalVariable Label :=
  { slot := 3, name := .this, type := .long, start := ⟨0⟩, stop := ⟨1⟩ }

/-- The same variable with its descriptor as a signature. -/
def wideVariableType : LocalVariableType Label :=
  { slot := 3, name := .this, signature := "J", start := ⟨0⟩, stop := ⟨1⟩ }

/-- A shift over a method with one parameter. -/
def shiftOverOne : Injection Unit :=
  { shift := { fixed := 1 }
    chain := .terminal (.buffered (.withInitialLocals 1)), ambient := () }

/-- The method takes a slot for itself, and a narrow value in the slot of the
variable comes by. -/
def stepsBetween : List (ShiftStep Unit) :=
  [.meanwhile (.ask (.allocate .int) fun _ => .done ()), .accept (.load .int 3)]

/-- The variable moves behind the slot of an earlier value, twice. -/
theorem wideVariable_moves :
    Kind.ofDescriptor "J" = .ok .long ∧ Kind.ofSignature "J" = .long ∧
      wideVariableType.slot = wideVariable.slot ∧
      wideVariableType.signature = wideVariable.type.render ∧
      (shiftOverOne.after [.shift 2 .int]).MovesTo (.localVariable wideVariable) 2 ∧
      (shiftOverOne.after
        ([.shift 2 .int] ++ .accept (.localVariable wideVariable) :: stepsBetween)).MovesTo
        (.localVariableType wideVariableType) 2 := by
  obtain ⟨hkinds, hdescribed⟩ := kinds_agree
  have hdescriptor : Kind.ofDescriptor "J" = .ok .long := by decide +kernel
  have hsignature : wideVariableType.signature = wideVariable.type.render := by
    decide +kernel
  have hmoved : (shiftOverOne.after [.shift 2 .int]).MovesTo
      (.localVariable wideVariable) 2 := rfl
  obtain ⟨-, hmoves⟩ := hdescribed wideVariable wideVariableType rfl hsignature
  obtain ⟨hagain, -⟩ := hmoves Unit 1 (.terminal (.buffered (.withInitialLocals 1))) ()
    [.shift 2 .int] stepsBetween 2
  exact ⟨hdescriptor, (hkinds "J" .long hdescriptor).1, rfl, hsignature, hmoved,
    hagain hmoved⟩

end JvmMethod
