import JvmMethod.Proofs.WellFormedElements

/-!
# Labels that nothing mentions

A label takes no room in the code.  So a label may be placed anywhere without any
effect on the method, as long as no element mentions it.

`AlikeBelow` says of two lists of elements that they differ in nothing but the
places of such labels, which are those from some number on.  Then the offsets of
all other elements and labels are the same in both, and so is what is made out of
them.

* `AlikeBelow.insert`: one more label.
* `AlikeBelow.isWellFormed`: the elements are well-formed alike.
* `Direct.HasTaken.agreesBelow`: the bodies that they make differ in nothing but
  the offsets of these labels.
-/

namespace JvmMethod

/-- The elements of a layout that do not place a label. -/
def unlabeled (placed : List (Nat × Element)) : List (Nat × Element) :=
  placed.filter fun (_, element) => !element.isLabel

/-- The lists differ in nothing but the places of labels from `count` on. -/
structure AlikeBelow (count : Nat) (elements others : List Element) : Prop where
  unlabeled : unlabeled (layout 0 elements) = unlabeled (layout 0 others)
  endOffset : endOffset 0 elements = endOffset 0 others
  labelOffset? : ∀ label : Label, label.index < count →
    labelOffset? elements label = labelOffset? others label

/-- The labels that are mentioned, other than where they are placed, are below
`count`. -/
def MentionsBelow (count : Nat) (elements : List Element) : Prop :=
  ∀ element ∈ elements, element.isLabel = false →
    ∀ label ∈ element.labels, label.index < count

/-- Two bodies that differ in nothing but the offsets of labels from `count`
on. -/
structure MethodBody.AgreesBelow (count : Nat) (body other : MethodBody) : Prop where
  code : body.code = other.code
  maxLocals : body.maxLocals = other.maxLocals
  handlers : body.handlers = other.handlers
  lines : body.lines = other.lines
  localVariables : body.localVariables = other.localVariables
  localVariableTypes : body.localVariableTypes = other.localVariableTypes
  labelOffset? : ∀ label : Label, label.index < count →
    body.labelOffset? label = other.labelOffset? label

namespace ElementOf

variable {ℓ : Type} {element : ElementOf ℓ}

theorem eq_label_of_isLabel (h : element.isLabel = true) :
    ∃ placed, element = .label placed := by
  cases element with
  | label placed => exact ⟨placed, rfl⟩
  | _ => cases h

theorem mem_labels_of_nearTarget? {target : ℓ} (h : element.nearTarget? = some target) :
    element.isLabel = false ∧ target ∈ element.labels := by
  cases element with
  | branch branch =>
    cases branch with
    | test _ _ | goto _ =>
      cases h
      exact ⟨rfl, List.mem_singleton_self _⟩
    | _ => cases h
  | _ => cases h

theorem labels_of_scope? {start stop : ℓ} (h : element.scope? = some (start, stop)) :
    element.isLabel = false ∧ element.labels = [start, stop] := by
  cases element with
  | localVariable entry | localVariableType entry =>
    cases h
    exact ⟨rfl, rfl⟩
  | _ => cases h

end ElementOf

section Layout

variable {start offset bound : Nat} {elements : List Element} {element : Element}

theorem mem_of_mem_layout (h : (offset, element) ∈ layout start elements) :
    element ∈ elements := by
  obtain ⟨before, after, rfl, -⟩ := exists_append_of_mem_layout h
  exact List.mem_append_right _ List.mem_cons_self

theorem mem_unlabeled {placed : List (Nat × Element)} :
    (offset, element) ∈ unlabeled placed ↔
      (offset, element) ∈ placed ∧ element.isLabel = false := by
  unfold unlabeled
  rw [List.mem_filter, Bool.not_eq_true']

/-- What is collected from elements that are no labels is collected from their
layout. -/
theorem filterMap_layout {β : Type} (f : Nat × Element → Option β)
    (hlabel : ∀ offset placed, f (offset, .label placed) = none)
    (placed : List (Nat × Element)) :
    placed.filterMap f = (unlabeled placed).filterMap f := by
  unfold unlabeled
  rw [List.filterMap_filter]
  apply List.filterMap_congr
  intro entry _
  obtain ⟨offset, element⟩ := entry
  cases hplaces : element.isLabel with
  | false => simp [hplaces]
  | true =>
    obtain ⟨placed, rfl⟩ := ElementOf.eq_label_of_isLabel hplaces
    exact hlabel offset placed

theorem map_snd_layout (start : Nat) (elements : List Element) :
    (layout start elements).map Prod.snd = elements := by
  induction elements generalizing start with
  | nil => rfl
  | cons element elements ih => rw [layout, List.map_cons, ih]

theorem filterMap_eq_filterMap_layout {β : Type} (f : Element → Option β)
    (elements : List Element) :
    elements.filterMap f = (layout 0 elements).filterMap fun entry => f entry.2 := by
  conv_lhs => rw [← map_snd_layout 0 elements]
  rw [List.filterMap_map]
  rfl

/-- The pieces of an element that is in the layout. -/
def piecesOf (entry : Nat × Element) : List (Nat × Piece) :=
  (entry.2.piecesAt entry.1).map (entry.1, ·)

theorem placedPieces_eq_flatMap (start : Nat) (elements : List Element) :
    placedPieces start elements =
      (unlabeled (layout start elements)).flatMap piecesOf := by
  induction elements generalizing start with
  | nil => rfl
  | cons element elements ih =>
    rw [placedPieces, layout, ih]
    cases hplaces : element.isLabel with
    | false => simp [unlabeled, hplaces, piecesOf]
    | true =>
      obtain ⟨placed, rfl⟩ := ElementOf.eq_label_of_isLabel hplaces
      rfl

/-- The end of the highest slot is that of some element. -/
theorem slotsEnd_le_iff :
    slotsEnd elements ≤ bound ↔ ∀ element ∈ elements, element.slotEnd ≤ bound := by
  induction elements using List.reverseRecOn with
  | nil => simp [slotsEnd]
  | append_singleton elements element ih =>
    rw [slotsEnd_append, Nat.max_le, ih, List.forall_mem_append,
      List.forall_mem_singleton]

end Layout

namespace AlikeBelow

variable {count : Nat} {elements others more : List Element} {element : Element}
variable {initial : Slot}

theorem refl (count : Nat) (elements : List Element) :
    AlikeBelow count elements elements :=
  ⟨rfl, rfl, fun _ _ => rfl⟩

theorem symm (h : AlikeBelow count elements others) :
    AlikeBelow count others elements :=
  ⟨h.unlabeled.symm, h.endOffset.symm,
    fun label hbelow => (h.labelOffset? label hbelow).symm⟩

theorem trans (h : AlikeBelow count elements others)
    (hmore : AlikeBelow count others more) : AlikeBelow count elements more :=
  ⟨h.unlabeled.trans hmore.unlabeled, h.endOffset.trans hmore.endOffset,
    fun label hbelow =>
      (h.labelOffset? label hbelow).trans (hmore.labelOffset? label hbelow)⟩

/-- **One more label** changes no offset but its own. -/
theorem insert (before after : List Element) (placed : Label)
    (hstray : count ≤ placed.index) :
    AlikeBelow count (before ++ after) (before ++ .label placed :: after) := by
  constructor
  case unlabeled =>
    simp only [layout_append, layout, ElementOf.size, Nat.add_zero, JvmMethod.unlabeled,
      List.filter_append, List.filter_cons, ElementOf.isLabel, Bool.not_true,
      Bool.false_eq_true, if_false]
  case endOffset =>
    simp only [endOffset_append, JvmMethod.endOffset, ElementOf.size, Nat.add_zero]
  case labelOffset? =>
    intro label hbelow
    have hother : placed ≠ label := by
      intro hsame
      rw [hsame] at hstray
      omega
    simp [JvmMethod.labelOffset?, layout, ElementOf.size, ElementOf.placed?, hother]

section Members

variable (h : AlikeBelow count elements others)
include h

theorem mem_layout {offset : Nat} (hlabel : element.isLabel = false)
    (hmem : (offset, element) ∈ layout 0 others) :
    (offset, element) ∈ layout 0 elements := by
  have hunlabeled := mem_unlabeled.2 ⟨hmem, hlabel⟩
  rw [← h.unlabeled] at hunlabeled
  exact (mem_unlabeled.1 hunlabeled).1

theorem mem (hlabel : element.isLabel = false) (hmem : element ∈ others) :
    element ∈ elements := by
  obtain ⟨offset, hlayout⟩ := exists_mem_layout 0 hmem
  exact mem_of_mem_layout (h.mem_layout hlabel hlayout)

theorem mem_label {label : Label} (hbelow : label.index < count)
    (hmem : .label label ∈ elements) : .label label ∈ others := by
  rw [← mem_placed_iff, ← isSome_labelOffset?] at hmem ⊢
  rwa [← h.labelOffset? label hbelow]

theorem mentionsBelow (hbelow : MentionsBelow count elements) :
    MentionsBelow count others :=
  fun element hmem hlabel => hbelow element (h.mem hlabel hmem) hlabel

theorem slotsEnd_le : slotsEnd others ≤ slotsEnd elements := by
  rw [slotsEnd_le_iff]
  intro element hmem
  cases hlabel : element.isLabel with
  | false => exact slotsEnd_le_iff.1 (Nat.le_refl _) element (h.mem hlabel hmem)
  | true =>
    obtain ⟨placed, rfl⟩ := ElementOf.eq_label_of_isLabel hlabel
    exact Nat.zero_le _

theorem slotsEnd_eq : slotsEnd others = slotsEnd elements :=
  Nat.le_antisymm h.slotsEnd_le h.symm.slotsEnd_le

/-- What is collected from elements that are no labels is the same. -/
theorem filterMap_layout_eq {β : Type} {f : Nat × Element → Option β}
    (hlabel : ∀ offset placed, f (offset, .label placed) = none) :
    (layout 0 others).filterMap f = (layout 0 elements).filterMap f := by
  rw [filterMap_layout f hlabel (layout 0 others), ← h.unlabeled,
    ← filterMap_layout f hlabel]

theorem filterMap_eq {β : Type} {f : Element → Option β}
    (hlabel : ∀ placed, f (.label placed) = none) :
    others.filterMap f = elements.filterMap f := by
  rw [filterMap_eq_filterMap_layout, filterMap_eq_filterMap_layout,
    h.filterMap_layout_eq fun _ => hlabel]

theorem placedPieces_eq : placedPieces 0 others = placedPieces 0 elements := by
  rw [placedPieces_eq_flatMap, placedPieces_eq_flatMap, h.unlabeled]

/-- **The elements are well-formed alike**, if the labels are placed once. -/
theorem isWellFormed (hbelow : MentionsBelow count elements)
    (honce : (others.filterMap ElementOf.placed?).Nodup)
    (hwf : IsWellFormed initial elements) : IsWellFormed initial others := by
  constructor
  case no_void =>
    intro element hmem
    cases hlabel : element.isLabel with
    | false => exact hwf.no_void element (h.mem hlabel hmem)
    | true =>
      obtain ⟨placed, rfl⟩ := ElementOf.eq_label_of_isLabel hlabel
      intro slot hslot
      cases hslot
  case placed_once => exact honce
  case tables =>
    intro default low targets hmem
    exact hwf.tables default low targets (h.mem rfl hmem)
  case placed =>
    intro element hmem label hmention
    cases hlabel : element.isLabel with
    | false =>
      have hold := h.mem hlabel hmem
      exact h.mem_label (hbelow element hold hlabel label hmention)
        (hwf.placed element hold label hmention)
    | true =>
      obtain ⟨placed, rfl⟩ := ElementOf.eq_label_of_isLabel hlabel
      rw [List.mem_singleton.1 hmention]
      exact hmem
  case short => exact h.endOffset ▸ hwf.short
  case in_reach =>
    intro start element target offset hlayout htarget hoffset
    obtain ⟨hlabel, hmention⟩ := ElementOf.mem_labels_of_nearTarget? htarget
    have hold := h.mem_layout hlabel hlayout
    have hnear := hbelow element (mem_of_mem_layout hold) hlabel target hmention
    rw [← h.labelOffset? target hnear] at hoffset
    exact hwf.in_reach start element target offset hold htarget hoffset
  case ordered =>
    intro element hmem start stop first last hscope hfirst hlast
    obtain ⟨hlabel, hlabels⟩ := ElementOf.labels_of_scope? hscope
    have hold := h.mem hlabel hmem
    have hscoped := hbelow element hold hlabel
    rw [hlabels] at hscoped
    rw [← h.labelOffset? start (hscoped start (by simp))] at hfirst
    rw [← h.labelOffset? stop (hscoped stop (by simp))] at hlast
    exact hwf.ordered element hold start stop first last hscope hfirst hlast
  case enough_slots => exact h.slotsEnd_eq ▸ hwf.enough_slots

end Members

end AlikeBelow

namespace Direct

variable {labels others : LabelTable}

theorem resolve_congr {label : Label}
    (h : labels.position? label = others.position? label) :
    resolve labels label = resolve others label := by
  unfold resolve
  rw [h]

theorem resolveScope_congr {start stop : Label}
    (hstart : labels.position? start = others.position? start)
    (hstop : labels.position? stop = others.position? stop) :
    resolveScope labels start stop = resolveScope others start stop := by
  unfold resolveScope
  rw [resolve_congr hstart, resolve_congr hstop]

section Entries

variable {element : Element}
variable (h : ∀ label ∈ element.labels, labels.position? label = others.position? label)
include h

theorem resolveHandler_congr {entry : ExceptionHandler Label}
    (hentry : element.handler? = some entry) :
    resolveHandler labels entry = resolveHandler others entry := by
  cases element with
  | handler described =>
    cases hentry
    unfold resolveHandler
    rw [resolve_congr (h entry.tryStart (by simp [ElementOf.labels])),
      resolve_congr (h entry.tryStop (by simp [ElementOf.labels])),
      resolve_congr (h entry.handler (by simp [ElementOf.labels]))]
  | _ => cases hentry

theorem resolveVariable_congr {entry : LocalVariable Label}
    (hentry : element.localVariable? = some entry) :
    resolveVariable labels entry = resolveVariable others entry := by
  cases element with
  | localVariable described =>
    cases hentry
    unfold resolveVariable
    rw [resolveScope_congr (h entry.start (by simp [ElementOf.labels]))
      (h entry.stop (by simp [ElementOf.labels]))]
  | _ => cases hentry

theorem resolveVariableType_congr {entry : LocalVariableType Label}
    (hentry : element.localVariableType? = some entry) :
    resolveVariableType labels entry = resolveVariableType others entry := by
  cases element with
  | localVariableType described =>
    cases hentry
    unfold resolveVariableType
    rw [resolveScope_congr (h entry.start (by simp [ElementOf.labels]))
      (h entry.stop (by simp [ElementOf.labels]))]
  | _ => cases hentry

end Entries

/-- Going through an array depends on what is done with its members. -/
theorem mapM_congr {α β : Type} {f g : α → Except Fault β} {entries : Array α}
    (h : ∀ entry ∈ entries.toList, f entry = g entry) :
    entries.mapM f = entries.mapM g := by
  have hlist : ∀ list : List α, (∀ entry ∈ list, f entry = g entry) →
      list.mapM f = list.mapM g := by
    intro list hall
    induction list with
    | nil => rfl
    | cons first rest ih =>
      rw [List.forall_mem_cons] at hall
      rw [List.mapM_cons, List.mapM_cons, hall.1, ih hall.2]
  rw [Array.mapM_eq_mapM_toList, Array.mapM_eq_mapM_toList, hlist _ h]

namespace HasTaken

variable {direct other : Direct} {initial first : Slot} {count : Nat}
variable {elements : List Element} {more : List Element} {body otherBody : MethodBody}

section Tables

variable (h : direct.HasTaken initial elements) (hother : other.HasTaken first more)
variable (halike : AlikeBelow count elements more)
include h hother halike

theorem position?_eq {label : Label} (hbelow : label.index < count) :
    direct.labels.position? label = other.labels.position? label := by
  rw [h.encodes.position?, hother.encodes.position?, halike.labelOffset? label hbelow]

theorem lines_eq : direct.lines = other.lines := by
  apply Array.toList_inj.1
  rw [h.encodes.lines, hother.encodes.lines, halike.filterMap_layout_eq fun _ _ => rfl]

variable (hbelow : MentionsBelow count elements)
include hbelow

theorem position?_eq_of_mem {element : Element} (hmem : element ∈ elements)
    (hlabel : element.isLabel = false) {label : Label}
    (hmention : label ∈ element.labels) :
    direct.labels.position? label = other.labels.position? label :=
  h.position?_eq hother halike (hbelow element hmem hlabel label hmention)

theorem placedBytes_eq :
    placedBytes direct.labels (placedPieces 0 elements) =
      placedBytes other.labels (placedPieces 0 elements) := by
  unfold placedBytes
  apply List.flatMap_congr
  intro entry hmem
  obtain ⟨start, piece⟩ := entry
  obtain ⟨element, hlayout, hpiece⟩ := mem_placedPieces.1 hmem
  obtain ⟨pieces, hpieces⟩ := h.encodes.encodable start element hlayout
  rw [Element.piecesAt_eq hpieces] at hpiece
  have hplace {label : Label} (htarget : piece.target? = some label) :
      direct.labels.displacement start label = other.labels.displacement start label := by
    have hlabel : element.isLabel = false := by
      cases hlabel : element.isLabel with
      | false => rfl
      | true =>
        obtain ⟨placed, rfl⟩ := ElementOf.eq_label_of_isLabel hlabel
        cases hpieces
        cases hpiece
    unfold LabelTable.displacement
    rw [h.position?_eq_of_mem hother halike hbelow (mem_of_mem_layout hlayout) hlabel
      (mem_labels_of_mem_pieces hpieces hpiece htarget)]
  cases piece with
  | byte value => rfl
  | near label => exact congrArg offsetBytes16 (hplace rfl)
  | far label => exact congrArg offsetBytes32 (hplace rfl)

/-- Entries are resolved alike if that depends on the labels of their elements
only. -/
theorem mapM_eq {α β : Type} {entries otherEntries : Array α}
    {chosen? : Element → Option α} {resolved : LabelTable → α → Except Fault β}
    (hentries : entries.toList = elements.filterMap chosen?)
    (hotherEntries : otherEntries.toList = more.filterMap chosen?)
    (hlabel : ∀ placed, chosen? (.label placed) = none)
    (hcongr : ∀ element entry, chosen? element = some entry →
      (∀ label ∈ element.labels,
        direct.labels.position? label = other.labels.position? label) →
      resolved direct.labels entry = resolved other.labels entry) :
    entries.mapM (resolved direct.labels) =
      otherEntries.mapM (resolved other.labels) := by
  have hsame : entries = otherEntries := by
    apply Array.toList_inj.1
    rw [hentries, hotherEntries, halike.filterMap_eq hlabel]
  rw [← hsame]
  apply mapM_congr
  intro entry hmem
  rw [hentries] at hmem
  obtain ⟨element, hmem, hentry⟩ := List.mem_filterMap.1 hmem
  apply hcongr element entry hentry
  have hplaces : element.isLabel = false := by
    cases hplaces : element.isLabel with
    | false => rfl
    | true =>
      obtain ⟨placed, rfl⟩ := ElementOf.eq_label_of_isLabel hplaces
      rw [hlabel] at hentry
      cases hentry
  exact fun _ => h.position?_eq_of_mem hother halike hbelow hmem hplaces

/-- **The bodies agree** where labels do that are mentioned. -/
theorem agreesBelow
    (hlocals : max initial.toNat (slotsEnd elements) = max first.toNat (slotsEnd more))
    (hf : direct.finish = .ok body) (hotherf : other.finish = .ok otherBody) :
    body.AgreesBelow count otherBody := by
  have hcode := h.encodes.code_eq hf
  have hotherCode := hother.encodes.code_eq hotherf
  obtain ⟨-, -, hhandlers, hvariables, htypes, hmax, -, hlines⟩ := finish_eq_ok_iff.1 hf
  obtain ⟨-, -, hhandlers', hvariables', htypes', hmax', -, hlines'⟩ :=
    finish_eq_ok_iff.1 hotherf
  constructor
  case code =>
    apply Array.toList_inj.1
    rw [hcode, hotherCode, h.placedBytes_eq hother halike hbelow, halike.placedPieces_eq]
  case maxLocals =>
    have hneeded : direct.neededLocals = other.neededLocals := by
      unfold neededLocals
      rw [h.notes, hother.notes, h.topLocal, hother.topLocal, hlocals]
    rw [hneeded, hmax'] at hmax
    exact (Except.ok.inj hmax).symm
  case handlers =>
    rw [h.mapM_eq hother halike hbelow h.encodes.handlers hother.encodes.handlers
      (fun _ => rfl) fun _ _ hentry hplaces => resolveHandler_congr hplaces hentry,
      hhandlers'] at hhandlers
    exact (Except.ok.inj hhandlers).symm
  case lines => rw [hlines, hlines', h.lines_eq hother halike]
  case localVariables =>
    rw [h.mapM_eq hother halike hbelow h.encodes.localVariables
      hother.encodes.localVariables (fun _ => rfl)
      fun _ _ hentry hplaces => resolveVariable_congr hplaces hentry,
      hvariables'] at hvariables
    exact (Except.ok.inj hvariables).symm
  case localVariableTypes =>
    rw [h.mapM_eq hother halike hbelow h.encodes.localVariableTypes
      hother.encodes.localVariableTypes (fun _ => rfl)
      fun _ _ hentry hplaces => resolveVariableType_congr hplaces hentry,
      htypes'] at htypes
    exact (Except.ok.inj htypes).symm
  case labelOffset? =>
    intro label hlabel
    rw [labelOffset?_eq hf, labelOffset?_eq hotherf, h.position?_eq hother halike hlabel]

end Tables

end HasTaken

end Direct

end JvmMethod
