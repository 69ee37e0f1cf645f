import JvmMethod.Proofs.TerminalRelations

/-!
# The order of labels

The code only grows, and a label is placed at its end.  So the labels of a body
lie in the code in the order in which they were placed, whatever was refused in
between.  The scope of a local variable between two of them is therefore never
inverted, if the first one was placed first.

* `Direct.isKept_orders`: the order is kept by all that a terminal does.
* `Terminal.Relates.scope_ordered`: what that means for a finished body, and for
  the faults of one that cannot be finished.
-/

namespace JvmMethod

namespace Direct

variable {direct next : Direct} {element : Element} {elements : List Element}
  {start stop : Label}

/-- The labels that the elements place are in the code, in their order. -/
structure Orders (elements : List Element) (direct : Direct) : Prop where
  inside : ∀ label ∈ elements.filterMap ElementOf.placed?,
    ∃ position, direct.labels.position? label = some position ∧
      position ≤ direct.code.size
  sorted : (elements.filterMap ElementOf.placed?).Pairwise fun first later =>
    ∀ low high, direct.labels.position? first = some low →
      direct.labels.position? later = some high → low ≤ high

namespace Orders

theorem nil (direct : Direct) : direct.Orders [] where
  inside _ h := by cases h
  sorted := .nil

/-- Labels that have a place keep it, and the code grows. -/
theorem extend (h : direct.Orders elements)
    (hextends : next.labels.Extends direct.labels)
    (hsize : direct.code.size ≤ next.code.size) : next.Orders elements where
  inside label hmem := by
    obtain ⟨position, hplace, hle⟩ := h.inside label hmem
    exact ⟨position, hextends label position hplace, Nat.le_trans hle hsize⟩
  sorted := by
    refine List.Pairwise.imp_of_mem ?_ h.sorted
    intro first later hfirst hlater hle low high hlow hhigh
    obtain ⟨position, hplace, -⟩ := h.inside first hfirst
    obtain ⟨position', hplace', -⟩ := h.inside later hlater
    rw [hextends first position hplace] at hlow
    rw [hextends later position' hplace'] at hhigh
    cases hlow
    cases hhigh
    exact hle low high hplace hplace'

/-- A label that is placed is put at the end of the code. -/
theorem taken (h : direct.Orders elements) (htakes : direct.Takes element) :
    (direct.taken element).Orders (elements ++ [element]) := by
  have hsize := htakes.size_code_taken
  have hearlier := h.extend htakes.extends_taken (by omega)
  have hlast : ∀ label, element.placed? = some label →
      (direct.taken element).labels.position? label = some direct.code.size := by
    intro label hplaced
    rw [Direct.taken, LabelTable.position?_placing htakes.unplaced,
      htakes.unplaced label hplaced, if_pos hplaced, Option.none_or]
  have hplaces : (elements ++ [element]).filterMap ElementOf.placed? =
      elements.filterMap ElementOf.placed? ++ element.placed?.toList := by
    cases hplaced : element.placed? <;> simp [hplaced]
  constructor
  case inside =>
    rw [hplaces]
    intro label hmem
    rcases List.mem_append.1 hmem with hold | hnew
    · exact hearlier.inside label hold
    · exact ⟨_, hlast label (Option.mem_toList.1 hnew), by omega⟩
  case sorted =>
    rw [hplaces, List.pairwise_append]
    refine ⟨hearlier.sorted, ?_, ?_⟩
    · cases element.placed? <;> simp
    · intro first hfirst later hlater low high hlow hhigh
      obtain ⟨position, hplace, hle⟩ := h.inside first hfirst
      rw [htakes.extends_taken first position hplace] at hlow
      rw [hlast later (Option.mem_toList.1 hlater)] at hhigh
      cases hlow
      cases hhigh
      exact hle

end Orders

/-- **Labels stay in order**, whether or not elements are refused. -/
theorem isKept_orders : IsKept Orders where
  taken h htakes := h.taken htakes
  wrote := by
    intro elements direct next h hwrote
    have hsize := hwrote.size_le
    obtain ⟨⟨code, fixups, rfl⟩, -⟩ := hwrote
    exact h.extend (fun _ _ hplace => hplace) hsize
  freshLabel h := by
    refine h.extend (fun label position hplace => ?_) (Nat.le_refl _)
    simpa only [Direct.freshLabel, LabelTable.position?_fresh] using hplace
  allocate kind h := by
    refine h.extend ?_ ?_ <;> unfold Direct.allocate <;> split
    · exact fun _ _ hplace => hplace
    · exact fun _ _ hplace => hplace
    · exact Nat.le_refl _
    · exact Nat.le_refl _

/-- Of two labels the one that was placed first lies before the other. -/
theorem Orders.of_split {before inner after : List Element}
    (h : direct.Orders (before ++ .label start :: (inner ++ .label stop :: after))) :
    ∃ low high, direct.labels.position? start = some low ∧
      direct.labels.position? stop = some high ∧ low ≤ high ∧
      high ≤ direct.code.size := by
  obtain ⟨low, hlow, -⟩ := h.inside start
    (List.mem_filterMap.2 ⟨.label start, by simp, rfl⟩)
  obtain ⟨high, hhigh, hle⟩ := h.inside stop
    (List.mem_filterMap.2 ⟨.label stop, by simp, rfl⟩)
  have hsorted := h.sorted
  simp only [List.filterMap_append, List.filterMap_cons, ElementOf.placed?] at hsorted
  have hfirst := (List.pairwise_cons.1 (List.pairwise_append.1 hsorted).2.1).1
  exact ⟨low, high, hlow, hhigh, hfirst stop (by simp) low high hlow hhigh, hle⟩

section Faults

variable {fault : Fault}

/-- A step that does not fail in some way, and what follows it. -/
theorem bind_ne_error {α β : Type} {step : Except Fault α} {next : α → Except Fault β}
    (hstep : step ≠ .error fault)
    (hnext : ∀ result, step = .ok result → next result ≠ .error fault) :
    (step >>= next) ≠ .error fault := by
  cases step with
  | error other =>
    intro h
    cases h
    exact hstep rfl
  | ok result => exact hnext result rfl

theorem foldlM_ne_error {σ β : Type} {step : σ → β → Except Fault σ}
    (hstep : ∀ state entry, step state entry ≠ .error fault) (entries : Array β)
    (state : σ) : entries.foldlM step state ≠ .error fault := by
  rw [← Array.foldlM_toList]
  induction entries.toList generalizing state with
  | nil => exact fun h => by cases h
  | cons entry rest ih =>
    rw [List.foldlM_cons]
    exact bind_ne_error (hstep state entry) fun next _ => ih next

theorem mapM_ne_error {α β : Type} {f : α → Except Fault β}
    (hf : ∀ entry, f entry ≠ .error fault) (entries : Array α) :
    entries.mapM f ≠ .error fault := by
  have hlist : ∀ list : List α, list.mapM f ≠ .error fault := by
    intro list
    induction list with
    | nil => exact fun h => by cases h
    | cons first rest ih =>
      rw [List.mapM_cons]
      refine bind_ne_error (hf first) fun result _ => ?_
      exact bind_ne_error ih fun results _ h => by cases h
  rw [Array.mapM_eq_mapM_toList]
  exact bind_ne_error (hlist _) fun results _ h => by cases h

theorem pieces_ne_invalidLocalScope (position : Nat) (element : Element)
    (start stop : Label) :
    element.pieces position ≠ .error (.invalidLocalScope start stop) := by
  cases element with
  | load kind slot | store kind slot =>
    simp only [Element.pieces]
    split <;> simp
  | branch instruction =>
    cases instruction with
    | tableSwitch default low targets =>
      simp only [Element.pieces, Branch.pieces]
      split <;> simp
    | _ => simp [Element.pieces, Branch.pieces]
  | _ => simp [Element.pieces]

theorem writePieces_ne_invalidLocalScope (direct : Direct) (position : Nat)
    (pieces : List Piece) (start stop : Label) :
    (direct.writePieces position pieces).1 ≠
      .error (.invalidLocalScope start stop) := by
  have hone (direct : Direct) (piece : Piece) :
      (direct.writePiece position piece).1 ≠
        .error (.invalidLocalScope start stop) := by
    cases piece with
    | byte value => simp [writePiece]
    | near label =>
      simp only [writePiece]
      split
      · simp
      · split <;> simp
    | far label =>
      simp only [writePiece]
      split <;> simp
  induction pieces generalizing direct with
  | nil => simp [writePieces]
  | cons piece pieces ih =>
    have hfirst := hone direct piece
    rcases hwrite : direct.writePiece position piece with ⟨fault | ⟨⟩, middle⟩
    · rw [hwrite] at hfirst
      simpa only [writePieces, hwrite] using hfirst
    · simp only [writePieces, hwrite]
      exact ih middle

/-- No push fails since the scope of a local variable is inverted. -/
theorem push_ne_invalidLocalScope (direct : Direct) (element : Element)
    (start stop : Label) :
    (direct.push element).1 ≠ .error (.invalidLocalScope start stop) := by
  cases hvoid : touchesVoid element with
  | true => simp [push, hvoid]
  | false =>
    cases hpseudo : element.isPseudo with
    | false =>
      rw [push_instruction hpseudo hvoid]
      have hpieces :=
        pieces_ne_invalidLocalScope direct.code.size element start stop
      split
      · next fault hfault =>
        rw [hfault] at hpieces
        simpa using hpieces
      · exact writePieces_ne_invalidLocalScope _ _ _ start stop
    | true =>
      cases element with
      | label label =>
        simp only [push, hvoid, Bool.false_eq_true, if_false]
        split <;> simp
      | line _ | handler _ | localVariable _ | localVariableType _ =>
        simp [push, hvoid]
      | _ => cases hpseudo

/-- No label that is looked up has an inverted scope. -/
theorem resolve_ne_invalidLocalScope (labels : LabelTable) (label start stop : Label) :
    resolve labels label ≠ .error (.invalidLocalScope start stop) := by
  simp only [resolve]
  split <;> simp

/-- A scope whose labels are in order is not inverted, and for another one the
fault would name other labels. -/
theorem resolveScope_ne_invalidLocalScope {labels : LabelTable} {low high : Nat}
    (hlow : labels.position? start = some low)
    (hhigh : labels.position? stop = some high) (hle : low ≤ high)
    (hshort : high ≤ 65535) (first last : Label) :
    resolveScope labels first last ≠ .error (.invalidLocalScope start stop) := by
  refine bind_ne_error (resolve_ne_invalidLocalScope _ _ _ _) fun startOffset hfirst => ?_
  refine bind_ne_error (resolve_ne_invalidLocalScope _ _ _ _) fun stopOffset hlast => ?_
  split
  · next hinverted =>
    intro hfault
    cases hfault
    simp only [resolve, hlow, hhigh, Except.ok.injEq] at hfirst hlast
    subst hfirst hlast
    rw [UInt16.lt_iff_toNat_lt, UInt16.toNat_ofNat', UInt16.toNat_ofNat',
      Nat.mod_eq_of_lt (by omega), Nat.mod_eq_of_lt (by omega)] at hinverted
    omega
  · simp

/-- **A body is never refused for an inverted scope** between labels that are in
order. -/
theorem finish_ne_invalidLocalScope {low high : Nat}
    (hlow : direct.labels.position? start = some low)
    (hhigh : direct.labels.position? stop = some high) (hle : low ≤ high)
    (hinside : high ≤ direct.code.size) :
    direct.finish ≠ .error (.invalidLocalScope start stop) := by
  simp only [finish]
  split
  · simp
  · next hshort =>
    have hscope := resolveScope_ne_invalidLocalScope hlow hhigh hle (by omega)
    have hlabel := resolve_ne_invalidLocalScope direct.labels
    refine bind_ne_error (foldlM_ne_error ?_ _ _) fun code _ => ?_
    · intro bytes fixup
      simp only [applyFixup]
      split
      · simp
      · split
        · simp
        · split <;> simp
    refine bind_ne_error (mapM_ne_error ?_ _) fun handlers _ => ?_
    · intro entry
      refine bind_ne_error (hlabel _ _ _) fun tryStart _ => ?_
      refine bind_ne_error (hlabel _ _ _) fun tryStop _ => ?_
      exact bind_ne_error (hlabel _ _ _) fun handler _ h => by cases h
    refine bind_ne_error (mapM_ne_error ?_ _) fun entries _ => ?_
    · exact fun entry => bind_ne_error (hscope _ _) fun scope _ h => by cases h
    refine bind_ne_error (mapM_ne_error ?_ _) fun types _ => ?_
    · exact fun entry => bind_ne_error (hscope _ _) fun scope _ h => by cases h
    refine bind_ne_error ?_ fun maxLocals _ h => by cases h
    simp only [neededLocals]
    split <;> simp

end Faults

end Direct

/-- **The scope between two labels** that are placed one after the other.  In a
finished body it is not inverted, and if the body cannot be finished, that is not
for this reason. -/
theorem Terminal.Relates.scope_ordered {terminal : Terminal}
    {before inner after : List Element} {start stop : Label}
    (h : terminal.Relates Direct.Orders
      (before ++ .label start :: (inner ++ .label stop :: after))) :
    (∀ body, terminal.finish = .ok body → ∃ low high : CodeOffset,
        body.labelOffset? start = some low ∧ body.labelOffset? stop = some high ∧
        low ≤ high) ∧
      terminal.finish ≠ .error (.invalidLocalScope start stop) := by
  have hresume (buffered : Buffered) : buffered.resume.Orders [] := .nil _
  constructor
  · intro body hfinish
    obtain ⟨final, horders, -, hbody⟩ :=
      h.finish_ok Direct.isKept_orders hresume hfinish
    obtain ⟨low, high, hlow, hhigh, hle, hinside⟩ := horders.of_split
    have hshort := (Direct.finish_eq_ok_iff.1 hbody).1
    refine ⟨UInt16.ofNat low, UInt16.ofNat high, ?_, ?_, ?_⟩
    · rw [Direct.labelOffset?_eq hbody, hlow, Option.map_some]
    · rw [Direct.labelOffset?_eq hbody, hhigh, Option.map_some]
    · rw [UInt16.le_iff_toNat_le, UInt16.toNat_ofNat', UInt16.toNat_ofNat',
        Nat.mod_eq_of_lt (by omega), Nat.mod_eq_of_lt (by omega)]
      exact hle
  · intro hfinish
    rcases h.finish_error Direct.isKept_orders hresume hfinish with
      ⟨label, hlabel⟩ | ⟨middle, element, hpush⟩ | ⟨final, horders, hfinal⟩
    · cases hlabel
    · exact middle.push_ne_invalidLocalScope element start stop hpush
    · obtain ⟨low, high, hlow, hhigh, hle, hinside⟩ := horders.of_split
      exact Direct.finish_ne_invalidLocalScope hlow hhigh hle hinside hfinal

end JvmMethod
