import JvmMethod.Assembly
import JvmMethod.Proofs.ChainRequests
import JvmMethod.Proofs.Relabeling
import Mathlib.Data.List.Basic

/-!
# Labels in the order of their names

The assembler gives a label to a name when it meets the name for the first time.
So what it knows after some names can be told from what it knew and these names:
those that are new follow the others, and their labels are numbered on from those
that were handed out before.

`LabelNames.meet` is what is known after some names.  `Meets` says which names a
script meets, in which order, and what it answers, if it does nothing but give
labels to names.

* `LabelNames.newNames_append`, `LabelNames.meet_append`: some names after others.
* `Meets.bind`: one script after the other.
* `meets_element`: the names of an element, in the order in which it is written.
-/

namespace JvmMethod

section Numbering

variable {α β : Type} [DecidableEq α] [DecidableEq β]

/-- The label of a mention, if labels are handed out to different mentions in the
order of a history, and `first` is the number of the first. -/
def labelAt (first : Nat) (history : List α) (mention : α) : Label :=
  ⟨first + history.eraseDups.idxOf mention⟩

variable {first : Nat} {history : List α} {mention : α}

/-- Different mentions have different labels. -/
theorem labelAt_inj {other : α} (h : mention ∈ history)
    (hsame : labelAt first history mention = labelAt first history other) :
    mention = other := by
  simp only [labelAt, Label.mk.injEq, Nat.add_left_cancel_iff] at hsame
  exact (List.idxOf_inj (List.mem_eraseDups.2 h)).1 hsame

/-- As many labels are handed out as there are different mentions. -/
theorem labelAt_lt (h : mention ∈ history) :
    (labelAt first history mention).index < first + history.eraseDups.length :=
  Nat.add_lt_add_left (List.idxOf_lt_length_iff.2 (List.mem_eraseDups.2 h)) first

theorem idxOf_map {f : α → β} (history : List α)
    (hinj : ∀ other ∈ history, f other = f mention → other = mention) :
    (history.map f).idxOf (f mention) = history.idxOf mention := by
  induction history with
  | nil => rfl
  | cons other history ih =>
    rw [List.forall_mem_cons] at hinj
    rw [List.map_cons, List.idxOf_cons, List.idxOf_cons, ih hinj.2]
    by_cases hsame : other = mention
    · simp [hsame]
    · have hother : f other ≠ f mention := fun h => hsame (hinj.1 h)
      rw [beq_false_of_ne hsame, beq_false_of_ne hother]

theorem eraseDups_map {f : α → β} : ∀ history : List α,
    (∀ a ∈ history, ∀ b ∈ history, f a = f b → a = b) →
      (history.map f).eraseDups = history.eraseDups.map f
  | [], _ => rfl
  | mention :: history, hinj => by
    have hothers : (history.map f).filter (fun other => !other == f mention) =
        (history.filter fun other => !other == mention).map f := by
      rw [List.filter_map]
      congr 1
      apply List.filter_congr
      intro other hmem
      by_cases hsame : other = mention
      · simp [hsame]
      · have hother : f other ≠ f mention := fun h =>
          hsame (hinj other (List.mem_cons_of_mem _ hmem) mention
            List.mem_cons_self h)
        simp only [Function.comp_apply, beq_false_of_ne hsame, beq_false_of_ne hother]
    rw [List.map_cons, List.eraseDups_cons, List.eraseDups_cons, hothers,
      eraseDups_map, List.map_cons]
    intro a ha b hb
    exact hinj a (List.mem_cons_of_mem _ (List.mem_filter.1 ha).1)
      b (List.mem_cons_of_mem _ (List.mem_filter.1 hb).1)
termination_by history => history.length
decreasing_by
  have hle := List.length_filter_le (fun other => !other == mention) history
  rw [List.length_cons]
  omega

/-- Labels that are handed out to labels of a history, in its order, are the
labels that were handed out to the history. -/
theorem labelAt_map {f : α → β} (h : mention ∈ history)
    (hinj : ∀ a ∈ history, ∀ b ∈ history, f a = f b → a = b) :
    labelAt first (history.map f) (f mention) = labelAt first history mention := by
  unfold labelAt
  rw [eraseDups_map history hinj, idxOf_map]
  intro other hmem hsame
  exact hinj other (List.mem_eraseDups.1 hmem) mention h hsame

end Numbering

/-- The terminal once it has handed out a number of labels. -/
def Terminal.withLabels (terminal : Terminal) : Nat → Terminal
  | 0 => terminal
  | count + 1 => (terminal.withLabels count).freshLabel.2

@[simp] theorem Terminal.size_withLabels (terminal : Terminal) (count : Nat) :
    (terminal.withLabels count).labels.size = terminal.labels.size + count := by
  induction count with
  | zero => rfl
  | succ count ih =>
    rw [withLabels, (freshLabel_eq _).2, LabelTable.size_fresh, ih, Nat.add_assoc]

theorem Terminal.withLabels_withLabels (terminal : Terminal) (count more : Nat) :
    (terminal.withLabels count).withLabels more = terminal.withLabels (count + more) := by
  induction more with
  | zero => rfl
  | succ more ih => rw [withLabels, ih, ← Nat.add_assoc, withLabels]

/-- Names with labels that are numbered on from a first one. -/
def numbered (first : Nat) (names : List String) : List (String × Label) :=
  names.mapIdx fun place name => (name, ⟨first + place⟩)

theorem numbered_append (first : Nat) (names more : List String) :
    numbered first (names ++ more) =
      numbered first names ++ numbered (first + names.length) more := by
  have hplace (place : Nat) : first + (place + names.length) =
      first + names.length + place := by omega
  simp only [numbered, List.mapIdx_append, hplace]

@[simp] theorem map_fst_numbered (first : Nat) (names : List String) :
    (numbered first names).map Prod.fst = names := by
  apply List.ext_getElem
  · simp [numbered]
  · simp [numbered]

theorem index_of_mem_numbered {first : Nat} {names : List String}
    {entry : String × Label} (h : entry ∈ numbered first names) :
    first ≤ entry.2.index ∧ entry.2.index < first + names.length := by
  obtain ⟨place, hplace, rfl⟩ := List.mem_mapIdx.1 h
  exact ⟨Nat.le_add_right _ _, Nat.add_lt_add_left hplace first⟩

theorem nodup_labels_numbered (first : Nat) (names : List String) :
    ((numbered first names).map Prod.snd).Nodup := by
  induction names generalizing first with
  | nil => exact List.nodup_nil
  | cons name names ih =>
    have hcons : numbered first (name :: names) =
        (name, ⟨first⟩) :: numbered (first + 1) names :=
      numbered_append first [name] names
    rw [hcons, List.map_cons, List.nodup_cons]
    refine ⟨fun hmem => ?_, ih (first + 1)⟩
    obtain ⟨entry, hentry, hsame⟩ := List.mem_map.1 hmem
    have hlater := (index_of_mem_numbered hentry).1
    rw [hsame] at hlater
    exact absurd hlater (Nat.not_succ_le_self first)

/-- A name is found in its first place. -/
theorem find?_numbered {first : Nat} {names : List String} {name : String}
    (h : name ∈ names) :
    (numbered first names).find? (fun entry => entry.1 == name) =
      some (name, ⟨first + names.idxOf name⟩) := by
  induction names generalizing first with
  | nil => cases h
  | cons other names ih =>
    have hcons : numbered first (other :: names) =
        (other, ⟨first⟩) :: numbered (first + 1) names :=
      numbered_append first [other] names
    rw [hcons, List.find?_cons, List.idxOf_cons]
    by_cases hsame : other = name
    · simp [hsame]
    · have hmem : name ∈ names := (List.mem_cons.1 h).resolve_left (Ne.symm hsame)
      have hplace : first + 1 + names.idxOf name = first + (names.idxOf name + 1) := by
        omega
      rw [beq_false_of_ne hsame, cond_false, ← hplace]
      exact ih hmem

namespace LabelNames

/-- The names that were met. -/
def names (known : LabelNames) : List String :=
  known.entries.toList.map Prod.fst

/-- The names among some that were not met before, each of them once. -/
def newNames (known : LabelNames) (names : List String) : List String :=
  (names.removeAll known.names).eraseDups

/-- What is known after some names: those that are new have got labels. -/
def meet (known : LabelNames) (first : Nat) (names : List String) : LabelNames where
  entries := known.entries ++ (numbered first (known.newNames names)).toArray

variable {known : LabelNames} {names : List String} {name : String} {label : Label}

theorem find?_eq_none_iff : known.find? name = none ↔ name ∉ known.names := by
  unfold find? LabelNames.names
  rw [← Array.find?_toList, Option.map_eq_none_iff, List.find?_eq_none, List.mem_map]
  constructor
  · rintro hnone ⟨entry, hmem, rfl⟩
    exact hnone entry hmem (beq_self_eq_true entry.1)
  · intro hnone entry hmem hsame
    exact hnone ⟨entry, hmem, beq_iff_eq.1 hsame⟩

@[simp] theorem toList_meet (known : LabelNames) (first : Nat) (names : List String) :
    (known.meet first names).entries.toList =
      known.entries.toList ++ numbered first (known.newNames names) := by
  simp [meet]

theorem prefix_meet (known : LabelNames) (first : Nat) (names : List String) :
    known.entries.toList <+: (known.meet first names).entries.toList := by
  rw [toList_meet]
  exact List.prefix_append _ _

@[simp] theorem names_meet (known : LabelNames) (first : Nat) (names : List String) :
    (known.meet first names).names = known.names ++ known.newNames names := by
  simp [LabelNames.names]

/-- A name that is added has got its label. -/
theorem find?_add (h : known.find? name = none) (label : Label) :
    (known.add name label).find? name = some label := by
  unfold find? at h ⊢
  rw [← Array.find?_toList, Option.map_eq_none_iff] at h
  rw [← Array.find?_toList, add, Array.toList_push, List.find?_append, h]
  simp

theorem mem_newNames :
    name ∈ known.newNames names ↔ name ∈ names ∧ name ∉ known.names := by
  simp [newNames, List.removeAll]

/-- Without new names, nothing changes. -/
theorem meet_of_newNames (h : known.newNames names = []) (first : Nat) :
    known.meet first names = known := by
  simp [meet, h, numbered]

/-- A name keeps its label when others follow. -/
theorem find?_of_grown {later : LabelNames} (h : known.find? name = some label)
    (hgrown : known.entries.toList <+: later.entries.toList) :
    later.find? name = some label := by
  obtain ⟨others, hothers⟩ := hgrown
  unfold find? at h ⊢
  rw [← Array.find?_toList] at h ⊢
  obtain ⟨entry, hentry, rfl⟩ := Option.map_eq_some_iff.1 h
  rw [← hothers, List.find?_append, hentry]
  rfl

/-- Every name that was met has got a label. -/
theorem exists_find? (h : name ∈ known.names) :
    ∃ label, known.find? name = some label := by
  cases hfind : known.find? name with
  | none => exact absurd h (find?_eq_none_iff.1 hfind)
  | some label => exact ⟨label, rfl⟩

theorem exists_find?_meet (known : LabelNames) (first : Nat) (h : name ∈ names) :
    ∃ label, (known.meet first names).find? name = some label := by
  apply exists_find?
  rw [names_meet, List.mem_append, mem_newNames]
  by_cases hold : name ∈ known.names
  · exact .inl hold
  · exact .inr ⟨h, hold⟩

theorem newNames_append (first : Nat) (known : LabelNames) (names more : List String) :
    known.newNames (names ++ more) =
      known.newNames names ++ (known.meet first names).newNames more := by
  have hfront : (names ++ more).removeAll known.names =
      names.removeAll known.names ++ more.removeAll known.names := List.filter_append ..
  have hlater : (more.removeAll known.names).removeAll (names.removeAll known.names) =
      more.removeAll (known.names ++ known.newNames names) := by
    unfold List.removeAll
    rw [List.filter_filter]
    apply List.filter_congr
    intro name _
    rw [Bool.eq_iff_iff]
    simp [newNames, List.removeAll]
    tauto
  rw [newNames, hfront, List.eraseDups_append, hlater, ← names_meet known first]
  rfl

theorem meet_append (first : Nat) (known : LabelNames) (names more : List String) :
    known.meet first (names ++ more) =
      (known.meet first names).meet (first + (known.newNames names).length) more := by
  have hentries : (known.meet first (names ++ more)).entries.toList =
      ((known.meet first names).meet (first + (known.newNames names).length)
        more).entries.toList := by
    rw [toList_meet, toList_meet, toList_meet, newNames_append first, numbered_append,
      List.append_assoc]
  exact congrArg LabelNames.mk (Array.toList_inj.1 hentries)

/-- What the assembler knows at the start. -/
theorem newNames_empty (names : List String) :
    ({} : LabelNames).newNames names = names.eraseDups :=
  congrArg List.eraseDups List.removeAll_nil

/-- At the start, names get labels in the order in which they are met first. -/
theorem find?_meet_empty (first : Nat) (h : name ∈ names) :
    (({} : LabelNames).meet first names).find? name =
      some (labelAt first names name) := by
  unfold find?
  rw [← Array.find?_toList, toList_meet, newNames_empty]
  exact congrArg (Option.map Prod.snd) (find?_numbered (List.mem_eraseDups.2 h))

end LabelNames

/-- The script meets names, one after the other, and answers a value, as soon as
these names have the labels that a function gives them. -/
def Meets {α : Type} (label : String → Label) (script : Script LabelNames α)
    (names : List String) (value : α) : Prop :=
  ∀ (terminal : Terminal) (known : LabelNames),
    (∀ name ∈ names, (known.meet terminal.labels.size names).find? name =
      some (label name)) →
    script.run terminal known =
      (value, terminal.withLabels (known.newNames names).length,
        known.meet terminal.labels.size names)

section Scripts

variable {α β : Type} {label : String → Label} {names more : List String}
variable {script : Script LabelNames α} {value : α} {other : β}

theorem meets_pure (value : α) : Meets label (pure value) [] value := by
  intro terminal known _
  have hnone : known.newNames [] = [] := rfl
  rw [LabelNames.meet_of_newNames hnone, hnone]
  rfl

theorem Meets.bind {next : α → Script LabelNames β}
    (h : Meets label script names value) (hnext : Meets label (next value) more other) :
    Meets label (script >>= next) (names ++ more) other := by
  intro terminal known hlabel
  rw [LabelNames.meet_append] at hlabel
  have hfirst := h terminal known ?_
  · have hsize : (terminal.withLabels (known.newNames names).length).labels.size =
        terminal.labels.size + (known.newNames names).length :=
      terminal.size_withLabels _
    have hsecond := hnext (terminal.withLabels (known.newNames names).length)
      (known.meet terminal.labels.size names) ?_
    · have hboth := Script.run_bind script next terminal known
      rw [hfirst] at hboth
      refine hboth.trans ?_
      rw [LabelNames.newNames_append terminal.labels.size, List.length_append,
        LabelNames.meet_append, ← Terminal.withLabels_withLabels, ← hsize]
      exact hsecond
    · intro name hmem
      rw [hsize]
      exact hlabel name (List.mem_append_right _ hmem)
  · -- the labels of the first names stay what they are
    intro name hmem
    obtain ⟨first, hfirst⟩ :=
      LabelNames.exists_find?_meet known terminal.labels.size hmem
    have hgrown := (known.meet terminal.labels.size names).prefix_meet
      (terminal.labels.size + (known.newNames names).length) more
    rw [hfirst, ← LabelNames.find?_of_grown hfirst hgrown]
    exact hlabel name (List.mem_append_left _ hmem)

/-- A script that ends by answering something made of what it was answered. -/
theorem Meets.map (h : Meets label script names value) (f : α → β) :
    Meets label (script >>= fun value => pure (f value)) names (f value) := by
  have hlast : Meets label (pure (f value)) [] (f value) := meets_pure (f value)
  have hboth : Meets label (script >>= fun value => pure (f value)) (names ++ [])
      (f value) := h.bind hlast
  rwa [List.append_nil] at hboth

/-- **One more name** gets a new label, or has got one. -/
theorem meets_labelNamed (name : String) :
    Meets label (labelNamed name) [name] (label name) := by
  intro terminal known hlabel
  have hname := hlabel name (List.mem_singleton.2 rfl)
  cases hknown : known.find? name with
  | some old =>
    have hmem : name ∈ known.names := by
      by_contra hnew
      rw [LabelNames.find?_eq_none_iff.2 hnew] at hknown
      cases hknown
    have hnone : known.newNames [name] = [] := by
      simp [LabelNames.newNames, List.removeAll, hmem]
    rw [LabelNames.meet_of_newNames hnone] at hname ⊢
    rw [hknown] at hname
    cases hname
    rw [hnone]
    simp only [labelNamed, Script.run, hknown]
    rfl
  | none =>
    have hall : [name].removeAll known.names = [name] := by
      simp [List.removeAll, LabelNames.find?_eq_none_iff.1 hknown]
    have hnew : known.newNames [name] = [name] := by
      rw [LabelNames.newNames, hall]
      rfl
    have hmeet : known.meet terminal.labels.size [name] =
        known.add name terminal.freshLabel.1 := by
      rw [terminal.freshLabel_eq.1]
      simp [LabelNames.meet, hnew, numbered, LabelNames.add]
    rw [hmeet, LabelNames.find?_add hknown] at hname
    rw [hnew, hmeet, ← Option.some.inj hname]
    simp only [labelNamed, Script.run, hknown, Terminal.answer]
    rfl

/-- A list is gone through from its start. -/
theorem meets_mapM {γ : Type} {f : γ → Script LabelNames β} {name : γ → String}
    {answer : γ → β} (h : ∀ item, Meets label (f item) [name item] (answer item))
    (items : List γ) :
    Meets label (items.mapM f) (items.map name) (items.map answer) := by
  induction items with
  | nil => exact meets_pure []
  | cons item items ih =>
    rw [List.mapM_cons]
    exact (h item).bind (ih.map _)

theorem meets_branch (branch : Branch String) :
    Meets label (branch.mapM labelNamed) branch.targets
      (branch.map label) := by
  cases branch with
  | test condition target => exact (meets_labelNamed target).map _
  | goto target => exact (meets_labelNamed target).map _
  | tableSwitch default low targets =>
    have hname (target : String) :
        Meets label (labelNamed target) [id target]
          (label target) :=
      meets_labelNamed target
    have htargets := meets_mapM hname targets
    rw [List.map_id] at htargets
    exact (meets_labelNamed default).bind (htargets.map _)
  | lookupSwitch default targets =>
    have htarget (target : Int32 × String) :
        Meets label (do return (target.1, ← labelNamed target.2))
          [target.2] (target.1, label target.2) :=
      (meets_labelNamed target.2).map _
    have htargets := meets_mapM htarget targets
    exact (meets_labelNamed default).bind (htargets.map _)

/-- **The names of an element** are met in the order in which it is written. -/
theorem meets_element (element : ElementOf String) :
    Meets label (element.mapM labelNamed) element.labels
      (element.map label) := by
  cases element with
  | branch branch => exact (meets_branch branch).map _
  | label placed => exact (meets_labelNamed placed).map _
  | handler entry =>
    apply (meets_labelNamed entry.tryStart).bind
    apply (meets_labelNamed entry.tryStop).bind
    exact (meets_labelNamed entry.handler).map _
  | localVariable entry =>
    apply (meets_labelNamed entry.start).bind
    exact (meets_labelNamed entry.stop).map _
  | localVariableType entry =>
    apply (meets_labelNamed entry.start).bind
    exact (meets_labelNamed entry.stop).map _
  | _ => exact meets_pure _

/-- Names that are given labels are met. -/
theorem meets_meetNames (names : List String) :
    Meets label (meetNames names) names () := by
  induction names with
  | nil => exact meets_pure ()
  | cons name names ih => exact (meets_labelNamed name).bind ih

end Scripts

end JvmMethod
