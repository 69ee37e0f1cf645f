import JvmMethod.Proofs.AssemblyRoundTrip
import JvmMethod.Proofs.LineForms

/-!
# Texts that share their names

Several texts are assembled one after the other for one builder, whatever stands
under it, and in between the builder is asked for labels by others.  A name that
was met once keeps its label through all of this, also when it was met on a line
that turned out to be wrong.

* `mentionedIn`: the names in a text, up to the fault in its first wrong line.
* `assemble_run`: what assembling one text comes to, with any names known before.
* `NamingSession.names_stable`: what holds after any number of texts.
-/

namespace JvmMethod

variable {ω α : Type}

section Texts

/-- The names that are met in lines: those of all lines up to the first that does not
fit, and of this one those in front of its fault. -/
def mentionedIn : List (List Char) → List String
  | [] => []
  | line :: lines =>
      lineMentions line ++ if lineFits line then mentionedIn lines else []

/-- What is said of lines to someone who will know some names: the number of the first
line that does not fit, or else the elements, with the labels of their names. -/
structure Reports (lines : List (List Char)) (known : LabelNames)
    (answer : Except AssemblyFault (Array Element)) : Prop where
  fault : ∀ fitting line rest, lines = fitting ++ line :: rest →
    (∀ line ∈ fitting, lineFits line = true) → lineFits line = false →
      ∃ cause, (readLine line).1 = .error cause ∧
        answer = .error { line := fitting.length + 1, cause }
  elements : (∀ line ∈ lines, lineFits line = true) →
    ∃ label : String → Label,
      (∀ name ∈ mentionedIn lines, known.find? name = some (label name)) ∧
        answer = .ok ((lineElements lines).map (ElementOf.map label)).toArray

variable {line : List Char} {lines : List (List Char)}

theorem isLine_iff_lineFits : IsLine line ↔ lineFits line = true := by
  constructor
  · rintro ⟨element?, mentioned, hread⟩
    have hagrees := (readLine_agrees line).2
    rw [hread] at hagrees
    exact hagrees.1
  · intro hfits
    obtain ⟨element?, hread, -⟩ := readLine_of_fits hfits
    exact ⟨element?, _, hread⟩

/-- The names on lines that fit are those of their elements. -/
theorem mentionedIn_append (h : ∀ line ∈ lines, lineFits line = true)
    (rest : List (List Char)) :
    mentionedIn (lines ++ rest) =
      (lineElements lines).flatMap ElementOf.labels ++ mentionedIn rest := by
  induction lines with
  | nil => rfl
  | cons line lines ih =>
    rw [List.forall_mem_cons] at h
    obtain ⟨element?, hread, hmentions⟩ := readLine_of_fits h.1
    have hone : lineElement? line = element? := by rw [lineElement?, hread]
    rw [List.cons_append, mentionedIn, if_pos h.1, ih h.2, hmentions, ← List.append_assoc]
    cases element? <;> simp only [lineElements, List.filterMap_cons, hone] <;> rfl

theorem exists_labels (known : LabelNames) (first : Nat) (names : List String) :
    ∃ label : String → Label, ∀ name ∈ names,
      (known.meet first names).find? name = some (label name) := by
  refine ⟨fun name => ((known.meet first names).find? name).getD ⟨0⟩, fun name hmem => ?_⟩
  obtain ⟨label, hlabel⟩ := LabelNames.exists_find?_meet known first hmem
  simp only [hlabel, Option.getD_some]

/-- Lines that fit are assembled. -/
theorem assembleLines_of_fits (h : ∀ line ∈ lines, lineFits line = true)
    (terminal : Terminal) (known : LabelNames) :
    let names := mentionedIn lines
    let later := known.meet terminal.labels.size names
    ∃ label : String → Label,
      (∀ name ∈ names, later.find? name = some (label name)) ∧
        (assembleLines 1 #[] lines).run terminal known =
          (.ok ((lineElements lines).map (ElementOf.map label)).toArray,
            terminal.withLabels (known.newNames names).length, later) := by
  intro names later
  have hnames : names = (lineElements lines).flatMap ElementOf.labels := by
    have hall := mentionedIn_append h []
    rwa [List.append_nil, mentionedIn, List.append_nil] at hall
  obtain ⟨label, hlabel⟩ := exists_labels known terminal.labels.size names
  refine ⟨label, hlabel, ?_⟩
  have hlines : ∀ line ∈ lines, IsLine line := fun line hmem =>
    isLine_iff_lineFits.2 (h line hmem)
  have hmeets : Meets label (assembleLines 1 #[] lines) _ _ :=
    meets_assembleLines 1 #[] hlines
  rw [← hnames, Array.empty_append] at hmeets
  exact hmeets terminal known hlabel

/-- The first line that does not fit is the end. -/
theorem assembleLines_of_not_fits (h : ∀ line ∈ lines, lineFits line = true)
    (hline : lineFits line = false) (rest : List (List Char)) (terminal : Terminal)
    (known : LabelNames) :
    let names := mentionedIn (lines ++ line :: rest)
    ∃ cause, (readLine line).1 = .error cause ∧
      (assembleLines 1 #[] (lines ++ line :: rest)).run terminal known =
        (.error { line := lines.length + 1, cause },
          terminal.withLabels (known.newNames names).length,
          known.meet terminal.labels.size names) := by
  intro names
  have hnames : names = (lineElements lines).flatMap ElementOf.labels ++
      lineMentions line := by
    have hall := mentionedIn_append h (line :: rest)
    rwa [mentionedIn, hline, if_neg Bool.false_ne_true, List.append_nil] at hall
  obtain ⟨cause, hread⟩ := readLine_of_not_fits hline
  obtain ⟨label, hlabel⟩ := exists_labels known terminal.labels.size names
  refine ⟨cause, by rw [hread], ?_⟩
  have hlines : ∀ line ∈ lines, IsLine line := fun line hmem =>
    isLine_iff_lineFits.2 (h line hmem)
  have hmeets : Meets label (assembleLines 1 #[] (lines ++ line :: rest)) _ _ :=
    meets_assembleLines_error 1 #[] hlines hread rest
  rw [← hnames, Nat.add_comm] at hmeets
  exact hmeets terminal known hlabel

/-- **What assembling a text comes to**, whatever is known before: the names up to the
first fault are met, and nothing else. -/
theorem assemble_run (source : String) (terminal : Terminal) (known : LabelNames) :
    let lines := partsAt '\n' source.toList
    let later := known.meet terminal.labels.size (mentionedIn lines)
    ∃ answer, (assemble source).run terminal known =
        (answer, terminal.withLabels (known.newNames (mentionedIn lines)).length, later) ∧
      Reports lines later answer := by
  unfold assemble
  intro lines later
  refine ⟨((assembleLines 1 #[] lines).run terminal known).1, ?_, ?_, ?_⟩
  · by_cases hall : ∀ line ∈ lines, lineFits line = true
    · obtain ⟨label, -, hrun⟩ := assembleLines_of_fits hall terminal known
      rw [hrun]
    · have hwrong : ∃ line ∈ lines, ¬ IsLine line := by
        simpa [isLine_iff_lineFits] using hall
      obtain ⟨fitting, line, rest, hlines, hfitting, cause, mentioned, hread⟩ :=
        exists_first_refused hwrong
      have hfits : ∀ line ∈ fitting, lineFits line = true := fun line hmem =>
        isLine_iff_lineFits.1 (hfitting line hmem)
      have hline := (readLine_agrees line).2
      rw [hread] at hline
      obtain ⟨cause, -, hrun⟩ :=
        assembleLines_of_not_fits hfits hline rest terminal known
      rw [← hlines] at hrun
      rw [hrun]
  · intro fitting line rest hlines hfitting hline
    obtain ⟨cause, hread, hrun⟩ :=
      assembleLines_of_not_fits hfitting hline rest terminal known
    rw [← hlines] at hrun
    exact ⟨cause, hread, congrArg Prod.fst hrun⟩
  · intro hall
    obtain ⟨label, hlabel, hrun⟩ := assembleLines_of_fits hall terminal known
    exact ⟨label, hlabel, congrArg Prod.fst hrun⟩

end Texts

/-- The script asks for nothing but new labels. -/
def Script.AsksLabels (script : Script ω α) : Prop :=
  script.Asks fun request => request = .freshLabel

section Requests

variable {β : Type}

theorem Script.AsksLabels.bind {script : Script ω α} {next : α → Script ω β}
    (h : script.AsksLabels) (hnext : ∀ result, (next result).AsksLabels) :
    (script >>= next).AsksLabels :=
  Script.Asks.bind h hnext

theorem asksLabels_pure (value : α) : (pure value : Script ω α).AsksLabels :=
  trivial

/-- A script that ends by answering something made of what it was answered. -/
theorem Script.AsksLabels.map {script : Script ω α} (h : script.AsksLabels)
    (f : α → β) : (script >>= fun value => pure (f value)).AsksLabels :=
  h.bind fun value => asksLabels_pure (f value)

theorem asksLabels_mapM {f : α → Script ω β} (h : ∀ item, (f item).AsksLabels)
    (items : List α) : (items.mapM f).AsksLabels := by
  induction items with
  | nil => exact asksLabels_pure []
  | cons item items ih =>
    rw [List.mapM_cons]
    exact (h item).bind fun _ => ih.map _

theorem asksLabels_labelNamed (name : String) : (labelNamed name).AsksLabels := by
  intro known
  simp only
  cases known.find? name with
  | some label => trivial
  | none => exact ⟨rfl, fun _ => trivial⟩

theorem asksLabels_element (element : ElementOf String) :
    (element.mapM labelNamed).AsksLabels := by
  have hname := asksLabels_labelNamed
  cases element with
  | branch branch =>
    cases branch with
    | test condition target => exact ((hname target).map _).map _
    | goto target => exact ((hname target).map _).map _
    | tableSwitch default low targets =>
      have htargets := asksLabels_mapM hname targets
      exact ((hname default).bind fun _ => htargets.map _).map _
    | lookupSwitch default targets =>
      have htargets := asksLabels_mapM (fun target : Int32 × String =>
        (hname target.2).map (Prod.mk target.1)) targets
      exact ((hname default).bind fun _ => htargets.map _).map _
  | label placed => exact (hname placed).map _
  | handler entry =>
    exact (hname entry.tryStart).bind fun _ =>
      (hname entry.tryStop).bind fun _ => (hname entry.handler).map _
  | localVariable entry =>
    exact (hname entry.start).bind fun _ => (hname entry.stop).map _
  | localVariableType entry =>
    exact (hname entry.start).bind fun _ => (hname entry.stop).map _
  | _ => exact asksLabels_pure _

theorem asksLabels_meetNames (names : List String) : (meetNames names).AsksLabels := by
  induction names with
  | nil => trivial
  | cons name names ih => exact (asksLabels_labelNamed name).bind fun _ => ih

/-- **Assembling pushes nothing.** -/
theorem asksLabels_assembleLines (number : Nat) (elements : Array Element)
    (lines : List (List Char)) : (assembleLines number elements lines).AsksLabels := by
  induction lines generalizing number elements with
  | nil => trivial
  | cons line lines ih =>
    rw [assembleLines]
    rcases readLine line with ⟨cause | _ | element, mentioned⟩
    · exact (asksLabels_meetNames mentioned).bind fun _ => trivial
    · exact ih (number + 1) elements
    · exact (asksLabels_element element).bind fun element =>
        ih (number + 1) (elements.push element)

end Requests

section Sessions

/-- Label names that are apart from what the builders know. -/
def namesApart : Focus (LabelNames × ω) LabelNames where
  get := Prod.fst
  modify f state := (f state.1, state.2)

/-- A script that asks for labels alone runs on a chain as on its terminal. -/
theorem Chain.run_labels {script : Script LabelNames α} (h : script.AsksLabels)
    (chain : Chain (LabelNames × ω)) (known : LabelNames) (beside : ω) :
    chain.run (script.zoom namesApart) (known, beside) =
      ((script.run chain.bottom known).1,
        chain.withBottom (script.run chain.bottom known).2.1,
        (script.run chain.bottom known).2.2, beside) := by
  induction script generalizing chain known with
  | done result =>
    simp only [Script.zoom, run_done, Script.run, withBottom_bottom]
  | ask request next ih =>
    obtain ⟨rfl, hnext⟩ := h
    have hpast : Request.freshLabel.IsPast := trivial
    rw [Script.zoom, chain.run_past _ hpast, ih _ (hnext _)]
    simp only [bottom_withBottom, withBottom_withBottom]
    rfl
  | read next ih =>
    rw [Script.zoom, run_read]
    exact ih _ (h _) chain known
  | change f next ih =>
    rw [Script.zoom, run_change]
    exact ih h chain (f known)

/-- A builder, and the names that were met for it. -/
structure NamingSession (ω : Type) where
  chain : Chain (LabelNames × ω)
  known : LabelNames := {}
  /-- What the builders know. -/
  beside : ω

/-- What is done in a session. -/
inductive NamingStep where
  | assemble (source : String)
  /-- Someone else asks the builder for a label. -/
  | freshLabel

/-- The names that are met in a step. -/
def NamingStep.mentions : NamingStep → List String
  | .assemble source => mentionedIn (partsAt '\n' source.toList)
  | .freshLabel => []

namespace NamingSession

/-- Runs a script that knows the names. -/
def run (session : NamingSession ω) (script : Script LabelNames α) :
    α × NamingSession ω :=
  let (result, chain, known, beside) :=
    session.chain.run (script.zoom namesApart) (session.known, session.beside)
  (result, { chain, known, beside })

/-- Goes on by a step. -/
def perform (session : NamingSession ω) : NamingStep → NamingSession ω
  | .assemble source => (session.run (assemble source)).2
  | .freshLabel => (session.run (.send .freshLabel)).2

/-- Goes on by some steps. -/
def performAll (session : NamingSession ω) (steps : List NamingStep) : NamingSession ω :=
  steps.foldl perform session

/-- The names with their labels, in order. -/
def entries (session : NamingSession ω) : List (String × Label) :=
  session.known.entries.toList

/-- How many labels the builder has handed out. -/
def labelCount (session : NamingSession ω) : Nat :=
  session.chain.bottom.labels.size

/-- The session once some names were met. -/
def meet (session : NamingSession ω) (names : List String) : NamingSession ω :=
  { session with
    chain := session.chain.withBottom
      (session.chain.bottom.withLabels (session.known.newNames names).length)
    known := session.known.meet session.labelCount names }

/-- **What assembling a text does in a session.**  The names up to the first fault are
met, those that are new get labels that are new to the builder, and nothing else
happens to it. -/
structure Assembles (session : NamingSession ω) (source : String) : Prop where
  /-- Nothing is pushed. -/
  asks : (assemble source).AsksLabels
  reports : Reports (partsAt '\n' source.toList)
    (session.perform (.assemble source)).known (session.run (assemble source)).1
  chain : (session.perform (.assemble source)).chain =
    session.chain.withBottom (session.chain.bottom.withLabels
      (session.known.newNames (mentionedIn (partsAt '\n' source.toList))).length)
  entries : (session.perform (.assemble source)).entries =
    session.entries ++ numbered session.labelCount
      (session.known.newNames (mentionedIn (partsAt '\n' source.toList)))

/-- **What is known after some names**: each of them once, in the order in which they
were met first, and no two with the same label. -/
structure Records (session : NamingSession ω) (mentions : List String) : Prop where
  names : session.entries.map Prod.fst = mentions.eraseDups
  labels : (session.entries.map Prod.snd).Nodup
  handedOut : ∀ entry ∈ session.entries, entry.2.index < session.labelCount

section Steps

variable {session : NamingSession ω} {mentions : List String}

theorem run_eq {script : Script LabelNames α} (h : script.AsksLabels)
    (session : NamingSession ω) :
    session.run script =
      ((script.run session.chain.bottom session.known).1,
        { session with
          chain := session.chain.withBottom
            (script.run session.chain.bottom session.known).2.1
          known := (script.run session.chain.bottom session.known).2.2 }) := by
  rw [run, Chain.run_labels h]

/-- A text is assembled whatever the session knows. -/
theorem run_assemble (session : NamingSession ω) (source : String) :
    let lines := partsAt '\n' source.toList
    ∃ answer, session.run (assemble source) = (answer, session.meet (mentionedIn lines)) ∧
      Reports lines (session.meet (mentionedIn lines)).known answer := by
  intro lines
  obtain ⟨answer, hrun, hreports⟩ :=
    assemble_run source session.chain.bottom session.known
  refine ⟨answer, ?_, hreports⟩
  have hasks : (assemble source).AsksLabels := asksLabels_assembleLines 1 #[] lines
  rw [run_eq hasks, hrun]
  rfl

theorem run_freshLabel (session : NamingSession ω) :
    session.run (.send .freshLabel) =
      (⟨session.labelCount⟩,
        { session with
          chain := session.chain.withBottom (session.chain.bottom.withLabels 1) }) := by
  have hasks : (Script.send .freshLabel : Script LabelNames _).AsksLabels :=
    ⟨rfl, fun _ => trivial⟩
  have hlabel : session.chain.bottom.freshLabel.1 = ⟨session.labelCount⟩ :=
    session.chain.bottom.freshLabel_eq.1
  rw [run_eq hasks, ← hlabel]
  rfl

theorem assembles (session : NamingSession ω) (source : String) :
    session.Assembles source := by
  obtain ⟨answer, hrun, hreports⟩ := session.run_assemble source
  constructor
  · exact asksLabels_assembleLines 1 #[] _
  · rw [perform, hrun]
    exact hreports
  · rw [perform, hrun]
    rfl
  · rw [perform, hrun]
    exact LabelNames.toList_meet _ _ _

/-- Names that are met are recorded behind the others. -/
theorem Records.meet (h : session.Records mentions) (names : List String) :
    (session.meet names).Records (mentions ++ names) := by
  have hentries : (session.meet names).entries =
      session.entries ++ numbered session.labelCount (session.known.newNames names) :=
    LabelNames.toList_meet _ _ _
  have hcount : (session.meet names).labelCount =
      session.labelCount + (session.known.newNames names).length := by
    simp [labelCount, NamingSession.meet]
  constructor
  · have hsame : names.removeAll session.known.names = names.removeAll mentions := by
      apply List.filter_congr
      intro name _
      have hnames : session.known.names = mentions.eraseDups := h.names
      simp [hnames]
    rw [hentries, List.map_append, h.names, map_fst_numbered, List.eraseDups_append,
      LabelNames.newNames, hsame]
  · rw [hentries, List.map_append, List.nodup_append]
    refine ⟨h.labels, nodup_labels_numbered _ _, ?_⟩
    -- the new labels come behind those that were handed out before
    intro old hold new hnew hsame
    obtain ⟨oldEntry, holdEntry, rfl⟩ := List.mem_map.1 hold
    obtain ⟨newEntry, hnewEntry, rfl⟩ := List.mem_map.1 hnew
    have hbelow := h.handedOut oldEntry holdEntry
    have habove := (index_of_mem_numbered hnewEntry).1
    rw [hsame] at hbelow
    omega
  · intro entry hmem
    rw [hentries, List.mem_append] at hmem
    rw [hcount]
    cases hmem with
    | inl hold => exact Nat.lt_add_right _ (h.handedOut entry hold)
    | inr hnew => exact (index_of_mem_numbered hnew).2

theorem Records.perform (h : session.Records mentions) (step : NamingStep) :
    (session.perform step).Records (mentions ++ step.mentions) := by
  cases step with
  | assemble source =>
    obtain ⟨answer, hrun, -⟩ := session.run_assemble source
    rw [NamingSession.perform, hrun]
    exact h.meet _
  | freshLabel =>
    rw [NamingSession.perform, run_freshLabel, NamingStep.mentions, List.append_nil]
    refine ⟨h.names, h.labels, fun entry hmem => ?_⟩
    have hbelow := h.handedOut entry hmem
    rw [labelCount, Chain.bottom_withBottom, Terminal.size_withLabels]
    exact Nat.lt_succ_of_lt hbelow

/-- Names keep their places. -/
theorem prefix_perform (session : NamingSession ω) (step : NamingStep) :
    session.entries <+: (session.perform step).entries := by
  cases step with
  | assemble source =>
    obtain ⟨answer, hrun, -⟩ := session.run_assemble source
    rw [perform, hrun]
    exact session.known.prefix_meet _ _
  | freshLabel =>
    rw [perform, run_freshLabel]
    exact List.prefix_rfl

theorem prefix_performAll (session : NamingSession ω) (steps : List NamingStep) :
    session.entries <+: (session.performAll steps).entries := by
  induction steps generalizing session with
  | nil => exact List.prefix_rfl
  | cons step steps ih =>
    exact (session.prefix_perform step).trans (ih (session.perform step))

theorem Records.performAll (h : session.Records mentions) (steps : List NamingStep) :
    (session.performAll steps).Records
      (mentions ++ steps.flatMap NamingStep.mentions) := by
  induction steps generalizing session mentions with
  | nil => simpa [NamingSession.performAll] using h
  | cons step steps ih =>
    rw [List.flatMap_cons, ← List.append_assoc]
    exact ih (h.perform step)

end Steps

/-- **Names keep their labels through a session.**  After any steps, every name that was
mentioned up to then has a label, and keeps it whatever is done then.  The names are
known once each, in the order in which they were met first, with labels that are all
different, and that nobody else gets.  And whatever was done up to then, the next text
is assembled in the same way. -/
theorem names_stable (chain : Chain (LabelNames × ω)) (beside : ω)
    (before after : List NamingStep) :
    let session := performAll { chain, beside } before
    let last := session.performAll after
    (∀ name ∈ before.flatMap NamingStep.mentions, ∃ label,
        session.known.find? name = some label ∧ last.known.find? name = some label) ∧
      session.entries <+: last.entries ∧
      session.Records (before.flatMap NamingStep.mentions) ∧
      (session.run (.send .freshLabel)).1 ∉ session.entries.map Prod.snd ∧
      ∀ source, session.Assembles source := by
  intro session last
  have hstart : Records ({ chain, beside } : NamingSession ω) [] :=
    ⟨rfl, List.nodup_nil, by rintro _ ⟨⟩⟩
  have hrecords : session.Records (before.flatMap NamingStep.mentions) :=
    hstart.performAll before
  have hgrown : session.entries <+: last.entries := session.prefix_performAll after
  refine ⟨fun name hmem => ?_, hgrown, hrecords, ?_, session.assembles⟩
  · have hknown : name ∈ session.known.names := by
      have hnames : session.known.names = _ := hrecords.names
      rw [hnames]
      exact List.mem_eraseDups.2 hmem
    obtain ⟨label, hlabel⟩ := LabelNames.exists_find? hknown
    exact ⟨label, hlabel, LabelNames.find?_of_grown hlabel hgrown⟩
  · rw [run_freshLabel]
    intro hmem
    obtain ⟨entry, hentry, hsame⟩ := List.mem_map.1 hmem
    have hbelow := hrecords.handedOut entry hentry
    rw [hsame] at hbelow
    exact absurd hbelow (Nat.lt_irrefl _)

/-- The second text stops at the pair without a key, and the third text goes on with
the names that were met up to there. -/
example :
    (performAll { chain := .terminal (.buffered (.withInitialLocals 0)), beside := () }
      [.assemble "goto a", .assemble "b:\nlookupswitch a 1:c x:d\ne:", .freshLabel,
        .assemble "d: # c\ngoto b"]).entries =
      [("a", ⟨0⟩), ("b", ⟨1⟩), ("c", ⟨2⟩), ("d", ⟨4⟩)] := by
  cbv

end NamingSession

end Sessions

end JvmMethod
