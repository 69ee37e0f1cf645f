import JvmMethod.Proofs.LineReading

/-!
# The forms of lines

What may stand on a line behind its first word is a list of operands, which this
word determines: names of labels, and words of other kinds.  Written down as a
table, this says without the reader whether a line is well-formed, and which names
of labels it mentions in front of the first word that is wrong, or missing.

* `formOf?`: the operands behind a mnemonic.
* `lineFits`, `lineMentions`: what the table says about a line.
* `LineReader.Agrees`: a reader and a part of the table say the same.
* `readLine_agrees`: so do the reader of lines and the whole table.
-/

namespace JvmMethod

/-- What is expected next on a line. -/
inductive OperandForm where
  /-- A word that names a label. -/
  | label
  /-- A word of another kind. -/
  | word (accepts : String → Bool)
  /-- The rest of the line: words that name a label each, and at least one. -/
  | labels
  /-- The rest of the line: words with a key and the name of a label each. -/
  | pairs
  /-- The end of the line. -/
  | nothing

/-- What is found on a line: the names of labels in front of the first fault, and
the words that are left if there is none. -/
abbrev Found := List String × Option (List String)

/-- Looks on, at the words that are left. -/
def Found.andThen (found : Found) (next : List String → Found) : Found :=
  match found with
  | (names, none) => (names, none)
  | (names, some left) => (names ++ (next left).1, (next left).2)

/-- The name of the label in a pair, behind the first colon, if there is a key in
front of it. -/
def pairName? (word : String) : Option String :=
  match word.toList.dropWhile (· != ':') with
  | [] => none
  | _ :: name =>
      if (int32? (word.toList.takeWhile (· != ':'))).isSome then
        some (String.ofList name)
      else none

/-- The names in pairs, up to the first word that is none. -/
def pairNames : List String → Found
  | [] => ([], some [])
  | word :: words =>
      match pairName? word with
      | none => ([], none)
      | some name => (name :: (pairNames words).1, (pairNames words).2)

namespace OperandForm

/-- An operand that is a number, or some other word that can be read. -/
def readable {α : Type} (read? : List Char → Option α) : OperandForm :=
  .word fun text => (read? text.toList).isSome

/-- An operand that is a local slot. -/
def slot : OperandForm := readable uint16?

/-- An operand that names a local variable. -/
def localName : OperandForm := .word fun text => (UnqualifiedName.ofString text).isOk

/-- An operand that is a field descriptor. -/
def fieldType : OperandForm := .word fun text => (FieldType.ofString text).isOk

/-- An operand that is any word. -/
def signature : OperandForm := .word fun _ => true

/-- An operand that is the class of an exception, or `any`. -/
def catchType : OperandForm :=
  .word fun text => text = "any" || (BinaryName.ofString text).isOk

/-- Finds one operand in front of the words. -/
def find : OperandForm → List String → Found
  | .label, [] => ([], none)
  | .label, name :: words => ([name], some words)
  | .word _, [] => ([], none)
  | .word accepts, first :: words => ([], if accepts first then some words else none)
  | .labels, words => (words, if words = [] then none else some [])
  | .pairs, words => pairNames words
  | .nothing, words => ([], if words = [] then some [] else none)

/-- Finds operands in front of the words, one after the other. -/
def findAll : List OperandForm → List String → Found
  | [], words => ([], some words)
  | form :: forms, words => (form.find words).andThen (findAll forms)

end OperandForm

/-- The operands of a typed instruction, by its mnemonic behind the letter of the
kind. -/
def typedForm? (family : List Char) : Option (List OperandForm) :=
  let isShort (stem : String) : Bool :=
    ((stem.toList.isPrefixOf? family).bind LineReader.shortSlot?).isSome
  if family = "return".toList then some []
  else if family = "load".toList ∨ family = "store".toList then some [.slot]
  else if isShort "load_" || isShort "store_" then some []
  else none

/-- The operands behind a mnemonic that follows a pattern. -/
def patternForm? (mnemonic : String) : Option (List OperandForm) :=
  let isComparison (suffix : List Char) : Bool :=
    (OrdComparison.ofSuffix? (String.ofList suffix)).isSome
  match "iconst_".toList.isPrefixOf? mnemonic.toList with
  | some number =>
      if ((int16? number).filter fun value => 0 ≤ value && value ≤ 5).isSome then
        some []
      else none
  | none =>
  match "if_icmp".toList.isPrefixOf? mnemonic.toList with
  | some suffix => if isComparison suffix then some [.label] else none
  | none =>
  if ("if".toList.isPrefixOf? mnemonic.toList).any isComparison then some [.label]
  else
    match mnemonic.toList with
    | [] => none
    | letter :: family =>
        if (Kind.ofLetter? letter).isSome then typedForm? family else none

/-- **The operands behind a mnemonic**, if it is one. -/
def formOf? (mnemonic : String) : Option (List OperandForm) :=
  match mnemonic with
  | "iinc" => some [.slot, .readable int16?]
  | "bipush" | "sipush" => some [.readable int16?]
  | "aconst_null" | "iconst_m1" | "lconst_0" | "lconst_1" | "fconst_0" | "fconst_1"
  | "fconst_2" | "dconst_0" | "dconst_1" | "return" | "athrow" => some []
  | "goto" | "if_acmpeq" | "if_acmpne" | "ifnull" | "ifnonnull" => some [.label]
  | "tableswitch" => some [.readable int32?, .label, .labels]
  | "lookupswitch" => some [.label, .pairs]
  | "line" => some [.readable uint16?]
  | "catch" => some [.label, .label, .label, .catchType]
  | "local" => some [.slot, .localName, .fieldType, .label, .label]
  | "localtype" => some [.slot, .localName, .signature, .label, .label]
  | _ =>
      match Operator.ofMnemonic? mnemonic with
      | some _ => some []
      | none => patternForm? mnemonic

/-- The operands that are found behind a mnemonic, or nothing if it is none. -/
def foundBehind (forms? : Option (List OperandForm)) : List String → Found :=
  match forms? with
  | some forms => OperandForm.findAll forms
  | none => fun _ => ([], none)

/-- What is found on a line from its first word on, but for the end. -/
def findElement (mnemonic : String) : List String → Found :=
  match LineReader.placedName? mnemonic with
  | some name => fun words => ([name], some words)
  | none => foundBehind (formOf? mnemonic)

/-- What is found on a line with the given words. -/
def findLine : List String → Found
  | [] => ([], some [])
  | mnemonic :: words =>
      (findElement mnemonic words).andThen OperandForm.nothing.find

/-- Is there no fault on the line? -/
def lineFits (line : List Char) : Bool :=
  (findLine (wordsOf (withoutComment line))).2.isSome

/-- The names of labels on the line, in front of the first fault. -/
def lineMentions (line : List Char) : List String :=
  (findLine (wordsOf (withoutComment line))).1

namespace OperandForm

theorem findAll_singleton (form : OperandForm) : findAll [form] = form.find := by
  funext words
  rw [findAll]
  rcases form.find words with ⟨names, _ | left⟩ <;> simp [Found.andThen, findAll]

end OperandForm

namespace LineReader

variable {α β : Type} {reader : LineReader α} {found more : List String → Found}
variable {tells : α → List String → Prop} {forms others : List OperandForm}

/-- The reader agrees with what is found: it fails where there is a fault, and else
it leaves the words that are left.  Either way it meets the names, and of what it
gives they tell something. -/
def Agrees (reader : LineReader α) (found : List String → Found)
    (tells : α → List String → Prop) : Prop :=
  ∀ words mentioned, ∃ answer left,
    reader.run { words, mentioned } =
      (answer, { words := left, mentioned := (found words).1.reverse ++ mentioned }) ∧
    match answer with
    | .ok value => (found words).2 = some left ∧ tells value (found words).1
    | .error _ => (found words).2 = none

/-- Nothing is told. -/
def Anything (_ : α) (names : List String) : Prop := names = []

/-- One reader after the other. -/
theorem Agrees.bind {next : α → LineReader β} {other : β → List String → Prop}
    (h : Agrees reader found tells)
    (hnext : ∀ value names, tells value names →
      Agrees (next value) more fun result later => other result (names ++ later)) :
    Agrees (reader >>= next) (fun words => (found words).andThen more) other := by
  intro words mentioned
  obtain ⟨answer, left, hrun, hanswer⟩ := h words mentioned
  rcases hfound : found words with ⟨names, rest⟩
  rw [hfound] at hrun hanswer
  rw [run_bind, hrun]
  cases answer with
  | error fault =>
    cases hanswer
    refine ⟨.error fault, left, ?_, ?_⟩ <;> simp only [hfound, Found.andThen]
  | ok value =>
    obtain ⟨rfl, htells⟩ := hanswer
    obtain ⟨result, last, hlast, hresult⟩ :=
      hnext value names htells left (names.reverse ++ mentioned)
    refine ⟨result, last, ?_, ?_⟩
    · simp only [hfound, Found.andThen, hlast, List.reverse_append, List.append_assoc]
    · cases result <;> simpa only [hfound, Found.andThen] using hresult

/-- What is read is made into something else. -/
theorem Agrees.map {make : α → β} {other : β → List String → Prop}
    (h : Agrees reader found tells)
    (hmake : ∀ value names, tells value names → other (make value) names) :
    Agrees (do return make (← reader)) found other := by
  intro words mentioned
  obtain ⟨answer, left, hrun, hanswer⟩ := h words mentioned
  rw [run_bind, hrun]
  cases answer with
  | error fault => exact ⟨.error fault, left, rfl, hanswer⟩
  | ok value => exact ⟨.ok (make value), left, rfl, hanswer.1, hmake _ _ hanswer.2⟩

theorem agrees_pure {value : α} (h : tells value []) :
    Agrees (pure value) (OperandForm.findAll []) tells := by
  intro words mentioned
  exact ⟨.ok value, words, rfl, rfl, h⟩

theorem agrees_throw (fault : LineFault) :
    Agrees (throw fault) (fun _ => ([], none)) tells := by
  intro words mentioned
  exact ⟨.error fault, words, rfl, rfl⟩

/-- One operand, and then others. -/
theorem Agrees.cons {form : OperandForm} {next : α → LineReader β}
    {other : β → List String → Prop} (h : Agrees reader form.find tells)
    (hnext : ∀ value names, tells value names →
      Agrees (next value) (OperandForm.findAll forms) fun result later =>
        other result (names ++ later)) :
    Agrees (reader >>= next) (OperandForm.findAll (form :: forms)) other :=
  h.bind hnext

/-- The last operand. -/
theorem Agrees.last {form : OperandForm} {make : α → β} {other : β → List String → Prop}
    (h : Agrees reader form.find tells)
    (hmake : ∀ value names, tells value names → other (make value) names) :
    Agrees (do return make (← reader)) (OperandForm.findAll [form]) other := by
  rw [OperandForm.findAll_singleton]
  exact h.map hmake

/-- A word that is looked at. -/
theorem agrees_word {missing : LineFault} {accepts : String → Bool}
    {next : String → LineReader α}
    (haccepts : ∀ word, accepts word = true → ∃ value, next word = pure value)
    (hrefuses : ∀ word, accepts word = false → ∃ fault, next word = throw fault) :
    Agrees (word missing >>= next) (OperandForm.word accepts).find Anything := by
  intro words mentioned
  cases words with
  | nil => exact ⟨.error missing, [], rfl, rfl⟩
  | cons first words =>
    rw [run_bind]
    cases hfirst : accepts first with
    | true =>
      obtain ⟨value, hvalue⟩ := haccepts first hfirst
      refine ⟨.ok value, words, ?_, ?_, rfl⟩
      · simp only [OperandForm.find]
        exact congrArg (fun reader : LineReader α => reader.run _) hvalue
      · simp [OperandForm.find, hfirst]
    | false =>
      obtain ⟨fault, hfault⟩ := hrefuses first hfirst
      refine ⟨.error fault, words, ?_, ?_⟩
      · simp only [OperandForm.find]
        exact congrArg (fun reader : LineReader α => reader.run _) hfault
      · simp [OperandForm.find, hfirst]

section Operands

theorem agrees_label :
    Agrees label OperandForm.label.find fun name names => names = [name] := by
  intro words mentioned
  cases words with
  | nil => exact ⟨.error .missingLabel, [], rfl, rfl⟩
  | cons name words => exact ⟨.ok name, words, rfl, rfl, rfl⟩

theorem agrees_operand (what : String) (read? : List Char → Option α) :
    Agrees (operand what read?) (OperandForm.readable read?).find Anything := by
  apply agrees_word
  all_goals
    intro word hread
    cases hvalue : read? word.toList <;> rw [hvalue] at hread <;>
      first | exact ⟨_, rfl⟩ | cases hread

theorem agrees_slot : Agrees LineReader.slot OperandForm.slot.find Anything :=
  agrees_operand "slot" uint16?

theorem agrees_localName :
    Agrees LineReader.localName OperandForm.localName.find Anything := by
  apply agrees_word
  all_goals
    intro word hread
    cases hname : UnqualifiedName.ofString word <;> rw [hname] at hread <;>
      first | exact ⟨_, rfl⟩ | cases hread

theorem agrees_fieldType :
    Agrees LineReader.fieldType OperandForm.fieldType.find Anything := by
  apply agrees_word
  all_goals
    intro word hread
    cases htype : FieldType.ofString word <;> rw [htype] at hread <;>
      first | exact ⟨_, rfl⟩ | cases hread

theorem agrees_catchType :
    Agrees LineReader.catchType OperandForm.catchType.find Anything := by
  apply agrees_word
  · intro word hread
    by_cases hany : word = "any"
    · exact ⟨none, if_pos hany⟩
    · rw [decide_eq_false hany, Bool.false_or] at hread
      cases hname : BinaryName.ofString word with
      | error fault =>
        rw [hname] at hread
        cases hread
      | ok name => exact ⟨some name, by simp only [if_neg hany]⟩
  · intro word hread
    obtain ⟨hany, hread⟩ := Bool.or_eq_false_iff.1 hread
    have hother : word ≠ "any" := of_decide_eq_false hany
    cases hname : BinaryName.ofString word with
    | error fault => exact ⟨.name fault, by simp only [if_neg hother]⟩
    | ok name =>
      rw [hname] at hread
      cases hread

theorem agrees_signature (missing : LineFault) :
    Agrees (word missing) OperandForm.signature.find Anything := by
  have hword : Agrees (word missing >>= pure) OperandForm.signature.find Anything :=
    agrees_word (fun word _ => ⟨word, rfl⟩) (fun _ hfalse => by cases hfalse)
  rwa [bind_pure] at hword

/-- The targets of a table are all words that are left. -/
theorem agrees_labels {make : List String → β} {fault : LineFault}
    {other : β → List String → Prop} (h : ∀ targets, other (make targets) targets) :
    Agrees
      (do
        let targets ← labels (← remaining)
        if targets = [] then throw fault else return make targets)
      OperandForm.labels.find other := by
  intro words mentioned
  rw [run_bind, reads_remaining words mentioned]
  simp only
  rw [run_bind, reads_labels words []]
  simp only
  by_cases hnone : words = []
  · subst hnone
    exact ⟨.error fault, [], rfl, rfl⟩
  · refine ⟨.ok (make words), [], ?_, ?_, h words⟩
    · rw [if_neg hnone]
      rfl
    · simp [OperandForm.find, hnone]

/-- A word that is no pair is a fault. -/
theorem pairs_cons_none {word : String} (h : pairName? word = none)
    (words : List String) : ∃ fault, pairs (word :: words) = throw fault := by
  unfold pairName? at h
  cases hcolon : word.toList.dropWhile (· != ':') with
  | nil => exact ⟨.expectedPair word, by simp only [pairs, hcolon]⟩
  | cons colon name =>
    cases hkey : int32? (word.toList.takeWhile (· != ':')) with
    | none =>
      refine ⟨.invalidKey (String.ofList (word.toList.takeWhile (· != ':'))), ?_⟩
      simp only [pairs, hcolon, hkey]
    | some key => simp [hcolon, hkey] at h

/-- Of a pair, the name is met. -/
theorem pairs_cons_some {word name : String} (h : pairName? word = some name)
    (words : List String) :
    ∃ key, pairs (word :: words) = do
      let name ← mention name
      return (key, name) :: (← pairs words) := by
  unfold pairName? at h
  cases hcolon : word.toList.dropWhile (· != ':') with
  | nil => simp [hcolon] at h
  | cons colon text =>
    cases hkey : int32? (word.toList.takeWhile (· != ':')) with
    | none => simp [hcolon, hkey] at h
    | some key =>
      have hname : String.ofList text = name := by simpa [hcolon, hkey] using h
      subst hname
      exact ⟨key, by simp only [pairs, hcolon, hkey]⟩

/-- The words of pairs are given to the reader at once. -/
theorem pairs_spec (words left mentioned : List String) :
    ∃ answer, (pairs words).run { words := left, mentioned } =
        (answer,
          { words := left, mentioned := (pairNames words).1.reverse ++ mentioned }) ∧
      match answer with
      | .ok targets =>
          (pairNames words).2 = some [] ∧ (pairNames words).1 = targets.map Prod.snd
      | .error _ => (pairNames words).2 = none := by
  induction words generalizing mentioned with
  | nil => exact ⟨.ok [], rfl, rfl, rfl⟩
  | cons word words ih =>
    cases hname : pairName? word with
    | none =>
      obtain ⟨fault, hthrow⟩ := pairs_cons_none hname words
      simp only [pairNames, hname, hthrow]
      exact ⟨.error fault, rfl, trivial⟩
    | some name =>
      obtain ⟨key, hpairs⟩ := pairs_cons_some hname words
      obtain ⟨answer, hrun, hanswer⟩ := ih (name :: mentioned)
      simp only [pairNames, hname, hpairs, run_bind, reads_mention name left mentioned,
        List.reverse_cons, List.reverse_nil, List.nil_append, List.singleton_append,
        hrun, List.append_assoc]
      cases answer with
      | error fault => exact ⟨.error fault, rfl, hanswer⟩
      | ok targets =>
        refine ⟨.ok ((key, name) :: targets), rfl, hanswer.1, ?_⟩
        rw [hanswer.2]
        rfl

/-- The pairs of a lookup are all words that are left. -/
theorem agrees_pairs {make : List (Int32 × String) → β}
    {other : β → List String → Prop}
    (h : ∀ targets, other (make targets) (targets.map Prod.snd)) :
    Agrees (do return make (← pairs (← remaining))) OperandForm.pairs.find other := by
  intro words mentioned
  obtain ⟨answer, hrun, hanswer⟩ := pairs_spec words [] mentioned
  simp only [run_bind, reads_remaining words mentioned, List.reverse_nil,
    List.nil_append, hrun, OperandForm.find]
  cases answer with
  | error fault => exact ⟨.error fault, [], rfl, hanswer⟩
  | ok targets =>
    refine ⟨.ok (make targets), [], rfl, hanswer.1, ?_⟩
    rw [hanswer.2]
    exact h targets

end Operands

section Elements

/-- The element mentions the names, in order. -/
def Names (element : ElementOf String) (names : List String) : Prop :=
  names = element.labels

theorem agrees_tableSwitch :
    Agrees tableSwitch (OperandForm.findAll [.readable int32?, .label, .labels])
      fun branch names => names = branch.targets := by
  apply (agrees_operand "low" int32?).cons
  rintro low _ rfl
  apply agrees_label.cons
  rintro default _ rfl
  rw [OperandForm.findAll_singleton]
  exact agrees_labels fun _ => rfl

theorem agrees_lookupSwitch :
    Agrees lookupSwitch (OperandForm.findAll [.label, .pairs])
      fun branch names => names = branch.targets := by
  apply agrees_label.cons
  rintro default _ rfl
  rw [OperandForm.findAll_singleton]
  exact agrees_pairs fun _ => rfl

theorem agrees_handler :
    Agrees handler (OperandForm.findAll [.label, .label, .label, .catchType])
      fun entry names => names = [entry.tryStart, entry.tryStop, entry.handler] := by
  apply agrees_label.cons
  rintro tryStart _ rfl
  apply agrees_label.cons
  rintro tryStop _ rfl
  apply agrees_label.cons
  rintro handler _ rfl
  apply agrees_catchType.last
  rintro class? _ rfl
  rfl

theorem agrees_localVariable :
    Agrees localVariable
      (OperandForm.findAll [.slot, .localName, .fieldType, .label, .label])
      fun entry names => names = [entry.start, entry.stop] := by
  apply agrees_slot.cons
  rintro slot _ rfl
  apply agrees_localName.cons
  rintro name _ rfl
  apply agrees_fieldType.cons
  rintro type _ rfl
  apply agrees_label.cons
  rintro start _ rfl
  apply agrees_label.last
  rintro stop _ rfl
  rfl

theorem agrees_localVariableType :
    Agrees localVariableType
      (OperandForm.findAll [.slot, .localName, .signature, .label, .label])
      fun entry names => names = [entry.start, entry.stop] := by
  apply agrees_slot.cons
  rintro slot _ rfl
  apply agrees_localName.cons
  rintro name _ rfl
  apply (agrees_signature .missingSignature).cons
  rintro signature _ rfl
  apply agrees_label.cons
  rintro start _ rfl
  apply agrees_label.last
  rintro stop _ rfl
  rfl

/-- A test of which the target is read. -/
theorem agrees_test (make : String → ElementOf String)
    (h : ∀ target, (make target).labels = [target]) :
    Agrees (do return make (← label)) (foundBehind (some [.label])) Names :=
  agrees_label.last fun target _ hnames => hnames.trans (h target).symm

theorem agrees_typed (mnemonic : String) (kind : Kind) (family : List Char) :
    Agrees (typed mnemonic kind family) (foundBehind (typedForm? family)) Names := by
  unfold typed typedForm?
  by_cases hreturn : family = "return".toList
  · rw [if_pos hreturn, if_pos hreturn]
    exact agrees_pure rfl
  by_cases hload : family = "load".toList
  · rw [if_neg hreturn, if_neg hreturn, if_pos hload, if_pos (.inl hload)]
    exact agrees_slot.last fun slot names hnames => hnames
  by_cases hstore : family = "store".toList
  · rw [if_neg hreturn, if_neg hreturn, if_neg hload, if_pos hstore,
      if_pos (.inr hstore)]
    exact agrees_slot.last fun slot names hnames => hnames
  rw [if_neg hreturn, if_neg hreturn, if_neg hload, if_neg hstore,
    if_neg (not_or.2 ⟨hload, hstore⟩)]
  cases hshortLoad : ("load_".toList.isPrefixOf? family).bind shortSlot? with
  | some slot =>
    simp only [hshortLoad, Option.isSome_some, Bool.true_or, if_true]
    exact agrees_pure rfl
  | none =>
    cases hshortStore : ("store_".toList.isPrefixOf? family).bind shortSlot? with
    | some slot =>
      simp only [hshortLoad, hshortStore, Option.isSome_some, Bool.or_true, if_true]
      exact agrees_pure rfl
    | none =>
      simp only [hshortLoad, hshortStore, Option.isSome_none, Bool.or_false,
        Bool.false_eq_true, if_false]
      exact agrees_throw _

theorem agrees_patterned (mnemonic : String) :
    Agrees (patterned mnemonic) (foundBehind (patternForm? mnemonic)) Names := by
  unfold patterned patternForm?
  cases hnumber : "iconst_".toList.isPrefixOf? mnemonic.toList with
  | some number =>
    cases hvalue : (int16? number).filter fun value => 0 ≤ value && value ≤ 5 with
    | some value =>
      simp only [hnumber, hvalue, Option.isSome_some, if_true]
      exact agrees_pure rfl
    | none =>
      simp only [hnumber, hvalue, Option.isSome_none, Bool.false_eq_true, if_false]
      exact agrees_throw _
  | none =>
  cases hints : "if_icmp".toList.isPrefixOf? mnemonic.toList with
  | some suffix =>
    cases hcomparison : OrdComparison.ofSuffix? (String.ofList suffix) with
    | some comparison =>
      simp only [hnumber, hints, hcomparison, Option.isSome_some, if_true]
      exact agrees_test (fun target => .branch (.test (.ints comparison) target))
        fun _ => rfl
    | none =>
      simp only [hnumber, hints, hcomparison, Option.isSome_none, Bool.false_eq_true,
        if_false]
      exact agrees_throw _
  | none =>
  have hany : ("if".toList.isPrefixOf? mnemonic.toList).any
      (fun suffix => (OrdComparison.ofSuffix? (String.ofList suffix)).isSome) =
        (("if".toList.isPrefixOf? mnemonic.toList).bind fun suffix =>
          OrdComparison.ofSuffix? (String.ofList suffix)).isSome := by
    cases "if".toList.isPrefixOf? mnemonic.toList <;> rfl
  simp only [hnumber, hints, hany]
  cases ("if".toList.isPrefixOf? mnemonic.toList).bind fun suffix =>
      OrdComparison.ofSuffix? (String.ofList suffix) with
  | some comparison =>
    simp only [Option.isSome_some, if_true]
    exact agrees_test (fun target => .branch (.test (.zero comparison) target))
      fun _ => rfl
  | none =>
  simp only [Option.isSome_none, Bool.false_eq_true, if_false]
  cases mnemonic.toList with
  | nil => exact agrees_throw _
  | cons letter family =>
    cases hkind : Kind.ofLetter? letter with
    | some kind =>
      simp only [hkind, Option.isSome_some, if_true]
      exact agrees_typed mnemonic kind family
    | none =>
      simp only [hkind, Option.isSome_none, Bool.false_eq_true, if_false]
      exact agrees_throw _

theorem agrees_element (mnemonic : String) :
    Agrees (element mnemonic) (foundBehind (formOf? mnemonic)) Names := by
  unfold element
  split
  -- the mnemonics without operands, and those with a target
  any_goals exact agrees_pure rfl
  any_goals exact agrees_test _ fun _ => rfl
  any_goals exact (agrees_operand "value" int16?).last fun _ _ hnames => hnames
  case h_1 =>
    apply agrees_slot.cons
    rintro slot _ rfl
    exact (agrees_operand "increment" int16?).last fun _ _ hnames => hnames
  case h_18 => exact agrees_tableSwitch.map fun _ _ hnames => hnames
  case h_19 => exact agrees_lookupSwitch.map fun _ _ hnames => hnames
  case h_22 =>
    exact (agrees_operand "line number" uint16?).last fun _ _ hnames => hnames
  case h_23 => exact agrees_handler.map fun _ _ hnames => hnames
  case h_24 => exact agrees_localVariable.map fun _ _ hnames => hnames
  case h_25 => exact agrees_localVariableType.map fun _ _ hnames => hnames
  case h_26 =>
    -- the mnemonic is none of those above
    have hform : formOf? mnemonic =
        match Operator.ofMnemonic? mnemonic with
        | some _ => some []
        | none => patternForm? mnemonic := by
      unfold formOf?
      split
      any_goals contradiction
      rfl
    rw [hform]
    cases Operator.ofMnemonic? mnemonic with
    | some instruction => exact agrees_pure rfl
    | none => exact agrees_patterned mnemonic

/-- The place of a label mentions its name, and then other elements. -/
theorem agrees_elementOf (mnemonic : String) :
    Agrees (elementOf mnemonic) (findElement mnemonic) Names := by
  unfold elementOf findElement
  cases placedName? mnemonic with
  | some name =>
    intro words mentioned
    exact ⟨.ok (.label name), words, rfl, rfl, rfl⟩
  | none => exact agrees_element mnemonic

theorem agrees_end? (element : ElementOf String) :
    Agrees (end? element) OperandForm.nothing.find fun read? names =>
      read? = some element ∧ names = [] := by
  intro words mentioned
  cases words with
  | nil => exact ⟨.ok (some element), [], rfl, rfl, rfl, rfl⟩
  | cons word words => exact ⟨.error (.extraOperand word), [], rfl, rfl⟩

/-- Behind its first word, a line is an element and its end. -/
theorem agrees_rest (mnemonic : String) :
    Agrees (elementOf mnemonic >>= end?) (fun words => findLine (mnemonic :: words))
      fun element? names => names = element?.elim [] ElementOf.labels := by
  apply (agrees_elementOf mnemonic).bind
  intro element names hnames words mentioned
  obtain ⟨answer, left, hrun, hanswer⟩ := agrees_end? element words mentioned
  refine ⟨answer, left, hrun, ?_⟩
  cases answer with
  | error fault => exact hanswer
  | ok element? =>
    -- the end of the line adds no names
    obtain ⟨hleft, rfl, hnone⟩ := hanswer
    refine ⟨hleft, ?_⟩
    simp only [hnone, List.append_nil]
    exact hnames

/-- The reader of whole lines agrees with what is found. -/
theorem agrees_line :
    Agrees line findLine fun element? names =>
      names = element?.elim [] ElementOf.labels := by
  intro words mentioned
  cases words with
  | nil => exact ⟨.ok none, [], rfl, rfl, rfl⟩
  | cons mnemonic words =>
    rw [run_line]
    exact agrees_rest mnemonic words mentioned

end Elements

end LineReader

/-- **What is read is what fits.**  The names that are met on a line are those that
it mentions in front of its first fault, and only lines with a fault are refused.
The names on any other line are those of its element. -/
theorem readLine_agrees (line : List Char) :
    (readLine line).2 = lineMentions line ∧
      match (readLine line).1 with
      | .ok element? =>
          lineFits line = true ∧ lineMentions line = element?.elim [] ElementOf.labels
      | .error _ => lineFits line = false := by
  obtain ⟨answer, left, hrun, hanswer⟩ :=
    LineReader.agrees_line (wordsOf (withoutComment line)) []
  rw [List.append_nil] at hrun
  have hread : readLine line = (answer, lineMentions line) := by
    simp only [readLine, hrun, lineMentions, List.reverse_reverse]
  rw [hread]
  refine ⟨rfl, ?_⟩
  cases answer with
  | error fault => simp only [lineFits, hanswer, Option.isSome_none]
  | ok element? =>
    exact ⟨by simp only [lineFits, hanswer.1, Option.isSome_some], hanswer.2⟩

section Lines

variable {line : List Char} {cause : LineFault}

/-- A line that fits is read, and its names are those of its element. -/
theorem readLine_of_fits (h : lineFits line = true) :
    ∃ element?, readLine line = (.ok element?, lineMentions line) ∧
      lineMentions line = element?.elim [] ElementOf.labels := by
  obtain ⟨hnames, hanswer⟩ := readLine_agrees line
  cases hread : (readLine line).1 with
  | error cause =>
    rw [hread] at hanswer
    simp [h] at hanswer
  | ok element? =>
    rw [hread] at hanswer
    exact ⟨element?, Prod.ext hread hnames, hanswer.2⟩

/-- A line that does not fit is refused, and its names are met up to the fault. -/
theorem readLine_of_not_fits (h : lineFits line = false) :
    ∃ cause, readLine line = (.error cause, lineMentions line) := by
  obtain ⟨hnames, hanswer⟩ := readLine_agrees line
  cases hread : (readLine line).1 with
  | error cause => exact ⟨cause, Prod.ext hread hnames⟩
  | ok element? =>
    rw [hread] at hanswer
    simp [h] at hanswer

end Lines

end JvmMethod
