import JvmMethod.Proofs.EncodedTargets
import JvmMethod.Proofs.TerminalAgreement

/-!
# The elements that make a body

The direct terminal checks what it is given in many places: some of it when an
element arrives, some of it only when the body is finished, and the reach of a
branch at the one or the other time, depending on which way it goes.  What all
these checks come to is a property of the list of elements.

`IsWellFormed` says it in terms of the layout of the elements alone (where an
element stands, where a label stands, how long the code is), and
`Direct.completes_iff_isWellFormed` says that it is exactly what the terminal
asks for.

* `Direct.HasTaken`: the invariant of a terminal that is given elements.
* `Direct.HasTaken.takes`: of well-formed elements none is refused.
* `Direct.HasTaken.exists_finish`, `Direct.HasTaken.isWellFormed`: they can be finished,
  and nothing else can.
-/

namespace JvmMethod

namespace ElementOf

variable {ℓ : Type}

/-- The labels between which the variable that an element describes lives. -/
def scope? : ElementOf ℓ → Option (ℓ × ℓ)
  | .localVariable entry => some (entry.start, entry.stop)
  | .localVariableType entry => some (entry.start, entry.stop)
  | _ => none

end ElementOf

/-- The elements make the body of a method whose first `initial` slots are
taken. -/
structure IsWellFormed (initial : Slot) (elements : List Element) : Prop where
  /-- Nothing is loaded from, stored to or described in a slot as void. -/
  no_void : ∀ element ∈ elements, ∀ slot,
    element.localSlot? ≠ some (slot, .void)
  /-- No label is placed twice. -/
  placed_once : (elements.filterMap ElementOf.placed?).Nodup
  /-- A table has a target, and its highest key is a word. -/
  tables : ∀ default (low : Int32) (targets : List Label),
    .branch (.tableSwitch default low targets) ∈ elements →
      1 ≤ targets.length ∧ low.toInt + targets.length - 1 ≤ 2147483647
  /-- Every label that is mentioned is placed. -/
  placed : ∀ element ∈ elements, ∀ label ∈ element.labels,
    .label label ∈ elements
  /-- The code is not too long. -/
  short : endOffset 0 elements ≤ 65535
  /-- The target of a jump or a test is in reach, ahead or back. -/
  in_reach : ∀ start element target offset,
    (start, element) ∈ layout 0 elements →
    element.nearTarget? = some target →
    labelOffset? elements target = some offset →
      -32768 ≤ (offset : Int) - start ∧ (offset : Int) - start ≤ 32767
  /-- No variable ends before it starts. -/
  ordered : ∀ element ∈ elements, ∀ start stop first last,
    element.scope? = some (start, stop) →
    labelOffset? elements start = some first →
    labelOffset? elements stop = some last → first ≤ last
  /-- There are slots for all that is in a slot. -/
  enough_slots : max initial.toNat (slotsEnd elements) ≤ 65535

/-- The element with a label is what places it. -/
theorem mem_placed_iff {elements : List Element} {label : Label} :
    label ∈ elements.filterMap ElementOf.placed? ↔
      .label label ∈ elements := by
  rw [List.mem_filterMap]
  constructor
  · intro h
    obtain ⟨element, hmem, hplaced⟩ := h
    cases element with
    | label placed =>
      cases hplaced
      exact hmem
    | _ => cases hplaced
  · intro h
    exact ⟨_, h, rfl⟩

/-- A label that has an offset keeps it when elements are appended. -/
theorem labelOffset?_append_of_some {elements more : List Element} {label : Label}
    {offset : Nat} (h : labelOffset? elements label = some offset) :
    labelOffset? (elements ++ more) label = some offset := by
  simp only [labelOffset?, layout_append, List.findSome?_append] at h ⊢
  rw [h, Option.some_or]

namespace Direct

variable {initial : Slot} {direct : Direct} {elements before after : List Element}
  {element : Element} {body : MethodBody}

/-- A terminal with `initial` slots taken has taken the elements. -/
structure HasTaken (initial : Slot) (elements : List Element) (direct : Direct) :
    Prop where
  encodes : direct.Encodes elements
  notes : direct.NotesLocals elements
  topLocal : direct.topLocal = initial
  no_void : ∀ element ∈ elements, ∀ slot,
    element.localSlot? ≠ some (slot, .void)

namespace HasTaken

theorem start (initial : Slot) : HasTaken initial [] (.withInitialLocals initial) where
  encodes := .start initial
  notes := by simp [NotesLocals, withInitialLocals, slotsEnd]
  topLocal := rfl
  no_void _ h := by cases h

/-- One element more. -/
theorem taken (h : HasTaken initial elements direct) (htakes : direct.Takes element) :
    HasTaken initial (elements ++ [element]) (direct.taken element) where
  encodes := h.encodes.taken htakes
  notes := h.notes.taken
  topLocal := h.topLocal
  no_void other hmem := by
    rcases List.mem_append.1 hmem with hmem | hmem
    · exact h.no_void other hmem
    · cases List.mem_singleton.1 hmem
      exact touchesVoid_eq_false_iff.1 htakes.not_void

/-- **Given elements** of which it refuses none, the terminal has taken them. -/
theorem run (h : HasTaken initial before direct)
    (hno : NoPushFails (performAll perform direct (after.map .push)).1) :
    HasTaken initial (before ++ after)
      (performAll perform direct (after.map .push)).2 := by
  induction after generalizing before direct with
  | nil => simpa [performAll] using h
  | cons element after ih =>
    rw [List.map_cons, performAll_cons] at hno ⊢
    obtain ⟨hok, hrest⟩ := noPushFails_pushed_cons.1 hno
    obtain ⟨htakes, hnext⟩ := push_eq_ok_iff.1 (Prod.ext hok rfl)
    have htaken := h.taken htakes
    rw [← hnext] at htaken
    have hfinal := ih htaken hrest
    rwa [List.append_assoc] at hfinal

/-- The next one of well-formed elements is not refused. -/
theorem takes (h : HasTaken initial before direct)
    (hwf : IsWellFormed initial (before ++ element :: after)) :
    direct.Takes element := by
  have hmem : element ∈ before ++ element :: after := by simp
  have hlayout : (direct.code.size, element) ∈ layout 0 (before ++ element :: after) := by
    rw [h.encodes.code_size, layout_append]
    simp [layout]
  have hvoid := hwf.no_void element hmem
  have hencodable : ∃ pieces, element.pieces direct.code.size = .ok pieces := by
    refine Element.exists_pieces hvoid fun default low targets htable => ?_
    subst htable
    -- the table is a part of the code, so it has no more targets than bytes
    have hsize := Nat.le_trans (offset_add_size_le hlayout) hwf.short
    simp only [ElementOf.size, Branch.size] at hsize
    exact (tableHigh?_isSome_iff (by omega)).2 (hwf.tables default low targets hmem)
  obtain ⟨pieces, hpieces⟩ := hencodable
  constructor
  case not_void => exact touchesVoid_eq_false_iff.2 hvoid
  case unplaced =>
    intro label hplaced
    rw [h.encodes.position?, ← Option.not_isSome_iff_eq_none, isSome_labelOffset?]
    have honce := hwf.placed_once
    rw [List.filterMap_append, List.filterMap_cons_some hplaced] at honce
    intro hearlier
    exact (List.nodup_append.1 honce).2.2 label hearlier label List.mem_cons_self rfl
  case encodable => exact ⟨pieces, hpieces⟩
  case fits =>
    rw [Element.piecesAt_eq hpieces]
    intro piece hpiece
    cases piece with
    | byte _ | far _ => trivial
    | near label =>
      intro target hplace
      rw [h.encodes.position?] at hplace
      exact fitsInt16_iff.2 (hwf.in_reach _ _ _ _ hlayout
        ((near_mem_pieces_iff hpieces).1 hpiece)
        (labelOffset?_append_of_some hplace))

/-- **Of well-formed elements none is refused.** -/
theorem noPushFails (h : HasTaken initial before direct)
    (hwf : IsWellFormed initial (before ++ after)) :
    NoPushFails (performAll perform direct (after.map .push)).1 := by
  induction after generalizing before direct with
  | nil => exact noPushFails_nil
  | cons element after ih =>
    have htakes := h.takes hwf
    have hpush := push_eq_ok_iff.2 ⟨htakes, rfl⟩
    rw [List.map_cons, performAll_cons]
    simp only [perform, hpush]
    refine noPushFails_pushed_cons.2 ⟨rfl, ih (h.taken htakes) ?_⟩
    rwa [List.append_assoc]

end HasTaken

/-- Going through an array succeeds if it does so at every member. -/
theorem exists_mapM {α β : Type} {f : α → Except Fault β} {entries : Array α}
    (h : ∀ entry ∈ entries.toList, ∃ resolved, f entry = .ok resolved) :
    ∃ resolved, entries.mapM f = .ok resolved := by
  have hlist : ∀ list : List α, (∀ entry ∈ list, ∃ resolved, f entry = .ok resolved) →
      ∃ resolved, list.mapM f = .ok resolved := by
    intro list hall
    induction list with
    | nil => exact ⟨[], rfl⟩
    | cons first rest ih =>
      obtain ⟨resolved, hfirst⟩ := hall first List.mem_cons_self
      obtain ⟨others, hrest⟩ :=
        ih fun entry hmem => hall entry (List.mem_cons_of_mem _ hmem)
      refine ⟨resolved :: others, ?_⟩
      rw [List.mapM_cons, hfirst, hrest]
      rfl
  obtain ⟨resolved, hresolved⟩ := hlist entries.toList h
  rw [← Array.toList_mapM] at hresolved
  cases hmapM : entries.mapM f with
  | error fault =>
    rw [hmapM] at hresolved
    cases hresolved
  | ok array => exact ⟨array, rfl⟩

section Resolving

variable {labels : LabelTable} {label start stop : Label}

theorem exists_resolve (h : ∃ position, labels.position? label = some position) :
    ∃ offset, resolve labels label = .ok offset := by
  obtain ⟨position, hplace⟩ := h
  exact ⟨UInt16.ofNat position, by simp [resolve, hplace]⟩

/-- A scope between two labels can be resolved if it is not inverted. -/
theorem exists_resolveScope (hwithin : labels.WithinCode)
    (hstart : ∃ first, labels.position? start = some first)
    (hstop : ∃ last, labels.position? stop = some last)
    (hordered : ∀ first last, labels.position? start = some first →
      labels.position? stop = some last → first ≤ last) :
    ∃ scope, resolveScope labels start stop = .ok scope := by
  obtain ⟨startOffset, hfirst⟩ := exists_resolve hstart
  obtain ⟨stopOffset, hlast⟩ := exists_resolve hstop
  have hle : ¬ stopOffset < startOffset := by
    rw [UInt16.not_lt, UInt16.le_iff_toNat_le]
    exact hordered _ _ (position?_of_resolve hwithin hfirst)
      (position?_of_resolve hwithin hlast)
  refine ⟨(startOffset, stopOffset - startOffset), ?_⟩
  simp [resolveScope, hfirst, hlast, hle, bind, Except.bind]

end Resolving

namespace HasTaken

variable (h : HasTaken initial elements direct) (hwf : IsWellFormed initial elements)

include h hwf

/-- Every label that is mentioned has a position. -/
theorem exists_position {label : Label} (hmem : element ∈ elements)
    (hlabel : label ∈ element.labels) :
    ∃ position, direct.labels.position? label = some position := by
  rw [h.encodes.position?]
  have hplaced := mem_placed_iff.2 (hwf.placed element hmem label hlabel)
  exact Option.isSome_iff_exists.1 (isSome_labelOffset?.2 hplaced)

theorem withinCode : direct.labels.WithinCode := by
  intro label position hplace
  rw [h.encodes.position?] at hplace
  exact Nat.le_trans (JvmMethod.labelOffset?_le hplace) hwf.short

/-- Every hole can be filled. -/
theorem resolvable {start : Nat} {piece : Piece}
    (hpiece : (start, piece) ∈ placedPieces 0 elements) :
    piece.IsResolvable direct.labels start := by
  obtain ⟨element, hlayout, hmem⟩ := mem_placedPieces.1 hpiece
  obtain ⟨pieces, hpieces⟩ := h.encodes.encodable start element hlayout
  rw [Element.piecesAt_eq hpieces] at hmem
  have helement : element ∈ elements := by
    obtain ⟨before, after, rfl, -⟩ := exists_append_of_mem_layout hlayout
    simp
  cases piece with
  | byte value => trivial
  | far label =>
    exact h.exists_position hwf helement (mem_labels_of_mem_pieces hpieces hmem rfl)
  | near label =>
    obtain ⟨target, hplace⟩ :=
      h.exists_position hwf helement (mem_labels_of_mem_pieces hpieces hmem rfl)
    refine ⟨target, hplace, ?_⟩
    rw [h.encodes.position?] at hplace
    exact fitsInt16_iff.2 (hwf.in_reach start element label target hlayout
      ((near_mem_pieces_iff hpieces).1 hmem) hplace)

theorem exists_handlers : ∃ resolved,
    direct.handlers.mapM (resolveHandler direct.labels) = .ok resolved := by
  refine exists_mapM fun entry hmem => ?_
  rw [h.encodes.handlers, List.mem_filterMap] at hmem
  obtain ⟨element, hmem, hentry⟩ := hmem
  cases element with
  | handler described =>
    cases hentry
    have hplaced (label : Label)
        (hlabel : label ∈ [entry.tryStart, entry.tryStop, entry.handler]) :=
      exists_resolve (h.exists_position hwf hmem hlabel)
    obtain ⟨start, hstart⟩ := hplaced entry.tryStart (by simp)
    obtain ⟨stop, hstop⟩ := hplaced entry.tryStop (by simp)
    obtain ⟨handler, hhandler⟩ := hplaced entry.handler (by simp)
    refine ⟨{ start, stop, handler, class? := entry.class? }, ?_⟩
    rw [resolveHandler, hstart, hstop, hhandler]
    rfl
  | _ => cases hentry

/-- The scope of every variable can be resolved. -/
theorem exists_scope {start stop : Label} (hmem : element ∈ elements)
    (hscope : element.scope? = some (start, stop))
    (hlabels : element.labels = [start, stop]) :
    ∃ scope, resolveScope direct.labels start stop = .ok scope := by
  have hplaced (label : Label) (hlabel : label ∈ [start, stop]) :=
    h.exists_position hwf hmem (hlabels ▸ hlabel)
  refine exists_resolveScope (h.withinCode hwf) (hplaced start (by simp))
    (hplaced stop (by simp)) ?_
  intro first last hfirst hlast
  rw [h.encodes.position?] at hfirst hlast
  exact hwf.ordered element hmem start stop first last hscope hfirst hlast

theorem exists_localVariables : ∃ resolved,
    direct.localVariables.mapM (resolveVariable direct.labels) =
      .ok resolved := by
  refine exists_mapM fun entry hmem => ?_
  rw [h.encodes.localVariables, List.mem_filterMap] at hmem
  obtain ⟨element, hmem, hentry⟩ := hmem
  cases element with
  | localVariable described =>
    cases hentry
    obtain ⟨⟨start, length⟩, hscope⟩ := h.exists_scope hwf hmem rfl rfl
    refine ⟨{ start, length, name := entry.name, type := entry.type,
              slot := entry.slot }, ?_⟩
    rw [resolveVariable, hscope]
    rfl
  | _ => cases hentry

theorem exists_localVariableTypes : ∃ resolved,
    direct.localVariableTypes.mapM (resolveVariableType direct.labels) =
      .ok resolved := by
  refine exists_mapM fun entry hmem => ?_
  rw [h.encodes.localVariableTypes, List.mem_filterMap] at hmem
  obtain ⟨element, hmem, hentry⟩ := hmem
  cases element with
  | localVariableType described =>
    cases hentry
    obtain ⟨⟨start, length⟩, hscope⟩ := h.exists_scope hwf hmem rfl rfl
    refine ⟨{ start, length, name := entry.name, signature := entry.signature,
              slot := entry.slot }, ?_⟩
    rw [resolveVariableType, hscope]
    rfl
  | _ => cases hentry

/-- **Well-formed elements can be finished.** -/
theorem exists_finish : ∃ body, direct.finish = .ok body := by
  have hcode := h.encodes.applyFixups_iff.2
    ⟨fun _ _ => h.resolvable hwf, List.toList_toArray⟩
  obtain ⟨handlers, hhandlers⟩ := h.exists_handlers hwf
  obtain ⟨localVariables, hvariables⟩ := h.exists_localVariables hwf
  obtain ⟨localVariableTypes, htypes⟩ := h.exists_localVariableTypes hwf
  have hneeded : max direct.maxLocals direct.topLocal.toNat ≤ 65535 := by
    rw [h.notes, h.topLocal]
    exact hwf.enough_slots
  refine ⟨{ code := _, maxLocals := _, labelOffsets := _, handlers, lines := _,
            localVariables, localVariableTypes },
    finish_eq_ok_iff.2 ⟨?_, hcode, hhandlers, hvariables, htypes,
      if_pos hneeded, rfl, rfl⟩⟩
  rw [h.encodes.code_size]
  exact hwf.short

end HasTaken

/-- **Elements that can be finished are well-formed.** -/
theorem HasTaken.isWellFormed (h : HasTaken initial elements direct)
    (hf : direct.finish = .ok body) : IsWellFormed initial elements := by
  have hassembly := h.encodes.isTwoPassAssembly hf
  constructor
  case no_void => exact h.no_void
  case placed_once => exact h.encodes.nodup
  case tables =>
    intro default low targets hmem
    obtain ⟨start, hlayout⟩ := exists_mem_layout 0 hmem
    obtain ⟨pieces, hpieces⟩ := h.encodes.encodable start _ hlayout
    have hsize := Nat.le_trans (offset_add_size_le hlayout) (h.encodes.endOffset_le hf)
    simp only [ElementOf.size, Branch.size] at hsize
    refine (tableHigh?_isSome_iff (by omega)).1 ?_
    by_contra hnone
    simp [Element.pieces, Branch.pieces, Option.not_isSome_iff_eq_none.1 hnone] at hpieces
  case placed =>
    intro element hmem label hlabel
    exact mem_placed_iff.1
      (isSome_labelOffset?.1 (hassembly.isSome_of_mem_labels hmem hlabel))
  case short => exact h.encodes.endOffset_le hf
  case in_reach =>
    intro start element target offset hlayout htarget hoffset
    obtain ⟨pieces, hpieces⟩ := h.encodes.encodable start element hlayout
    have hpiece := (near_mem_pieces_iff hpieces).2 htarget
    rw [← Element.piecesAt_eq hpieces] at hpiece
    obtain ⟨position, hplace, hfits⟩ :=
      h.encodes.resolvable hf (mem_placedPieces.2 ⟨element, hlayout, hpiece⟩)
    rw [h.encodes.position?, hoffset] at hplace
    cases hplace
    exact fitsInt16_iff.1 hfits
  case ordered =>
    intro element hmem start stop first last hscope hfirst hlast
    cases element with
    | localVariable entry =>
      cases hscope
      obtain ⟨resolved, hstart, hstop, -⟩ :=
        exists_of_forall₂_of_mem hassembly.localVariables
          (List.mem_filterMap.2 ⟨_, hmem, rfl⟩)
      rw [hfirst, Option.some.injEq] at hstart
      rw [hlast, Option.some.injEq] at hstop
      omega
    | localVariableType entry =>
      cases hscope
      obtain ⟨resolved, hstart, hstop, -⟩ :=
        exists_of_forall₂_of_mem hassembly.localVariableTypes
          (List.mem_filterMap.2 ⟨_, hmem, rfl⟩)
      rw [hfirst, Option.some.injEq] at hstart
      rw [hlast, Option.some.injEq] at hstop
      omega
    | _ => cases hscope
  case enough_slots =>
    obtain ⟨-, -, -, -, -, hneeded, -⟩ := finish_eq_ok_iff.1 hf
    rw [← h.topLocal, ← h.notes]
    by_contra hmany
    rw [neededLocals, if_neg hmany] at hneeded
    cases hneeded

/-- **A build succeeds exactly on well-formed elements.**  If they are pushed in
order into a direct terminal with `initial` slots taken, which then is finished,
no push fails and there is a body if and only if the elements are
well-formed. -/
theorem completes_iff_isWellFormed (initial : Slot) (elements : List Element) :
    (∃ outcomes body,
      Completes initial (elements.map .push) outcomes body) ↔
      IsWellFormed initial elements := by
  have hstart := HasTaken.start initial
  constructor
  · intro h
    obtain ⟨outcomes, body, rfl, hno, hf⟩ := h
    exact (hstart.run hno).isWellFormed hf
  · intro hwf
    have hno := hstart.noPushFails hwf
    obtain ⟨body, hf⟩ := (hstart.run hno).exists_finish hwf
    exact ⟨_, body, rfl, hno, hf⟩

end Direct

end JvmMethod
