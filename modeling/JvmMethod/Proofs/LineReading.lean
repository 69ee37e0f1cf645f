import JvmMethod.Proofs.ElementWords

/-!
# A line is read as the element that was written

A reader goes over the words of a line and notes the names of labels as it meets
them.  `Reads` follows it when it succeeds: which words it takes, which names it
meets and what it gives.  The readers of operands undo the writers of operands,
one word after the other; the mnemonics of written elements are told apart by
the table of mnemonics first and by their patterns second.

Conversely, a reader gives nothing that could not be written: `Gives` follows a
reader on the words of any line.

* `readLine_text`: the line of an element is read as that element.
* `isStandard_of_readLine`: an element that was read can be written and read again.
-/

namespace JvmMethod

section Numerals

theorem digits?_toDigits (number : Nat) :
    digits? (Nat.toDigits 10 number) = some number := by
  have hall : (Nat.toDigits 10 number).all Char.isDigit = true :=
    List.all_eq_true.2 fun c hmem =>
      Nat.isDigit_of_mem_toDigits (by decide) (by decide) hmem
  unfold digits?
  rw [if_pos ⟨Nat.toDigits_ne_nil, hall⟩,
    Nat.ofDigitChars_toDigits (by decide) (by decide)]

/-- The first character of a number is a digit, and no sign. -/
theorem toDigits_ne_cons (number : Nat) {c : Char} (hc : c.isDigit = false)
    (rest : List Char) : Nat.toDigits 10 number ≠ c :: rest := by
  intro h
  have hmem : c ∈ Nat.toDigits 10 number := by
    rw [h]
    exact List.mem_cons_self
  rw [Nat.isDigit_of_mem_toDigits (by decide) (by decide) hmem] at hc
  cases hc

theorem toList_toString_ofNat (number : Nat) :
    (toString (Int.ofNat number)).toList = Nat.toDigits 10 number :=
  Nat.toList_repr

theorem toList_toString_negSucc (number : Nat) :
    (toString (Int.negSucc number)).toList = '-' :: Nat.toDigits 10 (number + 1) := by
  have hsign : toString (Int.negSucc number) = "-" ++ (number + 1).repr := rfl
  rw [hsign, String.toList_append, Nat.toList_repr]
  rfl

theorem unsigned?_toString (number : Nat) :
    unsigned? (toString number).toList = some number := by
  have hlist : (toString number).toList = Nat.toDigits 10 number :=
    Nat.toList_repr
  rw [hlist]
  unfold unsigned?
  split
  · next text hplus => exact absurd hplus (toDigits_ne_cons number rfl text)
  · exact digits?_toDigits number

theorem signed?_toString (number : Int) :
    signed? (toString number).toList = some number := by
  cases number with
  | ofNat number =>
    rw [toList_toString_ofNat]
    unfold signed?
    split
    · next text hplus => exact absurd hplus (toDigits_ne_cons number rfl text)
    · next text hminus => exact absurd hminus (toDigits_ne_cons number rfl text)
    · rw [digits?_toDigits]
      rfl
  | negSucc number =>
    rw [toList_toString_negSucc, signed?, digits?_toDigits]
    rfl

theorem uint16?_toString (number : UInt16) :
    uint16? (toString number.toNat).toList = some number := by
  have hbound := number.toNat_lt
  rw [uint16?, unsigned?_toString, Option.bind_some, if_pos (by omega),
    UInt16.ofNat_toNat]

theorem int16?_toString (number : Int16) :
    int16? (toString number.toInt).toList = some number := by
  have hlow := number.le_toInt
  have hhigh := number.toInt_le
  rw [int16?, signed?_toString, Option.bind_some, if_pos ⟨hlow, hhigh⟩,
    Int16.ofInt_toInt]

theorem int32?_toString (number : Int32) :
    int32? (toString number.toInt).toList = some number := by
  have hlow := number.le_toInt
  have hhigh := number.toInt_le
  rw [int32?, signed?_toString, Option.bind_some, if_pos ⟨hlow, hhigh⟩,
    Int32.ofInt_toInt]

end Numerals

namespace LineReader

variable {α β : Type} {reader : LineReader α} {value : α} {other : β}
variable {words middle left names more : List String}

/-- What a reader does and what comes after it are done one after the other. -/
theorem run_bind (reader : LineReader α) (next : α → LineReader β)
    (state : LineState) :
    (reader >>= next).run state =
      match reader.run state with
      | (.ok value, after) => (next value).run after
      | (.error fault, after) => (.error fault, after) := by
  simp only [bind, ExceptT.bind, ExceptT.run, ExceptT.mk, StateT.bind]
  rcases (reader state) with ⟨_ | _, _⟩ <;> rfl

/-- The reader gives the value: it goes over the words up to those that are
left, and meets the names. -/
def Reads (reader : LineReader α) (words : List String) (value : α)
    (left names : List String) : Prop :=
  ∀ mentioned, reader.run { words, mentioned } =
    (.ok value, { words := left, mentioned := names.reverse ++ mentioned })

theorem Reads.pure (value : α) (words : List String) :
    Reads (Pure.pure value) words value words [] := by
  intro mentioned
  rfl

theorem Reads.bind {next : α → LineReader β} (h : Reads reader words value middle names)
    (hnext : Reads (next value) middle other left more) :
    Reads (reader >>= next) words other left (names ++ more) := by
  intro mentioned
  rw [run_bind, h mentioned]
  simp only
  rw [hnext, List.reverse_append, List.append_assoc]

/-- What comes after a reader need not meet names. -/
theorem Reads.last {next : α → LineReader β} (h : Reads reader words value middle names)
    (hnext : Reads (next value) middle other left []) :
    Reads (reader >>= next) words other left names := by
  have hboth := h.bind hnext
  rwa [List.append_nil] at hboth

/-- A reader that ends by giving something made of what was read. -/
theorem Reads.map (h : Reads reader words value left names) (f : α → β) :
    Reads (reader >>= fun value => Pure.pure (f value)) words (f value) left names :=
  h.last (Reads.pure (f value) left)

theorem reads_word (missing : LineFault) (first : String) (words : List String) :
    Reads (word missing) (first :: words) first words [] := by
  intro mentioned
  rfl

theorem reads_mention (name : String) (words : List String) :
    Reads (mention name) words name words [name] := by
  intro mentioned
  rfl

theorem reads_remaining (words : List String) :
    Reads remaining words words [] [] := by
  intro mentioned
  rfl

theorem reads_label (name : String) (words : List String) :
    Reads label (name :: words) name words [name] :=
  (reads_word _ name words).bind (reads_mention name words)

theorem reads_operand {what : String} {read? : List Char → Option α} {text : String}
    (h : read? text.toList = some value) (words : List String) :
    Reads (operand what read?) (text :: words) value words [] := by
  apply (reads_word _ text words).bind
  simp only [h]
  exact Reads.pure value words

theorem reads_slot (slot : Slot) (words : List String) :
    Reads LineReader.slot (slotText slot :: words) slot words [] :=
  reads_operand (uint16?_toString slot) words

theorem reads_localName (name : UnqualifiedName) (words : List String) :
    Reads localName (name.text :: words) name words [] := by
  apply (reads_word _ name.text words).bind
  have hread : UnqualifiedName.ofString name.text = .ok name := by
    unfold UnqualifiedName.ofString
    rw [dif_pos name.isUnqualified]
  simp only [hread]
  exact Reads.pure name words

theorem reads_fieldType (type : FieldType) (words : List String) :
    Reads fieldType (type.render :: words) type words [] := by
  apply (reads_word _ type.render words).bind
  have hread : FieldType.ofString type.render = .ok type :=
    FieldType.takesWritten.whole_iff.2 rfl
  simp only [hread]
  exact Reads.pure type words

theorem reads_catchType {class? : Option BinaryName}
    (h : ∀ name, class? = some name → name.text ≠ "any") (words : List String) :
    Reads catchType (class?.elim "any" BinaryName.text :: words) class? words [] := by
  apply (reads_word _ _ words).bind
  cases class? with
  | none => exact Reads.pure none words
  | some name =>
    have hread : BinaryName.ofString name.text = .ok name :=
      BinaryName.ofString_eq_ok_iff.2 rfl
    simp only [Option.elim_some, if_neg (h name rfl), hread]
    exact Reads.pure (some name) words

theorem reads_labels (names words : List String) :
    Reads (labels names) words names words names := by
  induction names with
  | nil => exact Reads.pure [] words
  | cons name names ih => exact (reads_mention name words).bind (ih.map _)

/-- The pairs of a lookup switch: a key has no colon, so the first colon is the
one that was written. -/
theorem reads_pairs (targets : List (Int32 × String)) (words : List String) :
    Reads (pairs (targets.map fun (key, target) =>
        toString key.toInt ++ ":" ++ target)) words targets words
      (targets.map Prod.snd) := by
  induction targets with
  | nil => exact Reads.pure [] words
  | cons first targets ih =>
    obtain ⟨key, target⟩ := first
    have hall : ∀ c ∈ (toString key.toInt).toList, (c != ':') = true := by
      intro c hmem
      apply bne_iff_ne.2
      intro hcolon
      rw [hcolon] at hmem
      exact (isBareWord_toString_int key.toInt).2 hmem
    have hlist : (toString key.toInt ++ ":" ++ target).toList =
        (toString key.toInt).toList ++ ':' :: target.toList := by
      simp
    have htake : (toString key.toInt ++ ":" ++ target).toList.takeWhile (· != ':') =
        (toString key.toInt).toList := by
      rw [hlist, List.takeWhile_append_of_pos hall]
      simp
    have hdrop : (toString key.toInt ++ ":" ++ target).toList.dropWhile (· != ':') =
        ':' :: target.toList := by
      rw [hlist, List.dropWhile_append_of_pos hall]
      simp
    rw [List.map_cons, pairs]
    simp only [htake, hdrop, int32?_toString, String.ofList_toList]
    exact (reads_mention target words).bind (ih.map _)

theorem reads_tableSwitch (default : String) (low : Int32) {targets : List String}
    (h : targets ≠ []) :
    Reads tableSwitch (toString low.toInt :: default :: targets)
      (.tableSwitch default low targets) [] (default :: targets) := by
  apply (reads_operand (int32?_toString low) _).bind
  apply (reads_label default _).bind
  apply (reads_remaining targets).bind
  apply (reads_labels targets []).last
  rw [if_neg h]
  exact Reads.pure _ []

theorem reads_lookupSwitch (default : String) (targets : List (Int32 × String)) :
    Reads lookupSwitch
      (default :: targets.map fun (key, target) =>
        toString key.toInt ++ ":" ++ target)
      (.lookupSwitch default targets) [] (default :: targets.map Prod.snd) := by
  apply (reads_label default _).bind
  apply (reads_remaining _).bind
  exact (reads_pairs targets []).map _

theorem reads_handler {entry : ExceptionHandler String}
    (h : ∀ name, entry.class? = some name → name.text ≠ "any") :
    Reads handler
      [entry.tryStart, entry.tryStop, entry.handler,
        entry.class?.elim "any" BinaryName.text]
      entry [] [entry.tryStart, entry.tryStop, entry.handler] := by
  apply (reads_label entry.tryStart _).bind
  apply (reads_label entry.tryStop _).bind
  apply (reads_label entry.handler _).bind
  exact (reads_catchType h []).map _

theorem reads_localVariable (entry : LocalVariable String) :
    Reads localVariable
      [slotText entry.slot, entry.name.text, entry.type.render, entry.start, entry.stop]
      entry [] [entry.start, entry.stop] := by
  apply (reads_slot entry.slot _).bind
  apply (reads_localName entry.name _).bind
  apply (reads_fieldType entry.type _).bind
  apply (reads_label entry.start _).bind
  exact (reads_label entry.stop []).map _

theorem reads_localVariableType (entry : LocalVariableType String) :
    Reads localVariableType
      [slotText entry.slot, entry.name.text, entry.signature, entry.start, entry.stop]
      entry [] [entry.start, entry.stop] := by
  apply (reads_slot entry.slot _).bind
  apply (reads_localName entry.name _).bind
  apply (reads_word _ entry.signature _).bind
  apply (reads_label entry.start _).bind
  exact (reads_label entry.stop []).map _

/-- A mnemonic of the typed instructions is known by the letter of its kind. -/
theorem element_mnemonic_load {kind : Kind} (h : kind ≠ .void) :
    element (kind.mnemonic "load") =
      typed (kind.mnemonic "load") kind.computational "load".toList := by
  cases kind with
  | void => exact absurd rfl h
  | _ => rfl

theorem element_mnemonic_store {kind : Kind} (h : kind ≠ .void) :
    element (kind.mnemonic "store") =
      typed (kind.mnemonic "store") kind.computational "store".toList := by
  cases kind with
  | void => exact absurd rfl h
  | _ => rfl

theorem reads_load {kind : Kind} (h : kind ≠ .void) (slot : Slot) :
    Reads (element (kind.mnemonic "load")) [slotText slot]
      (.load kind.computational slot) [] [] := by
  rw [element_mnemonic_load h]
  exact (reads_slot slot []).map _

theorem reads_store {kind : Kind} (h : kind ≠ .void) (slot : Slot) :
    Reads (element (kind.mnemonic "store")) [slotText slot]
      (.store kind.computational slot) [] [] := by
  rw [element_mnemonic_store h]
  exact (reads_slot slot []).map _

theorem reads_methodReturn (kind : Kind) :
    Reads (element (kind.mnemonic "return")) []
      (.methodReturn kind.computational) [] [] := by
  cases kind <;> exact Reads.pure _ []

theorem reads_constant (value : Constant) :
    Reads (element value.mnemonic) value.operands (.constant value) [] [] := by
  cases value with
  | int value =>
    simp only [Constant.mnemonic, Constant.operands]
    by_cases hminus : value = -1
    · subst hminus
      exact Reads.pure _ []
    · by_cases hshort : 0 ≤ value ∧ value ≤ 5
      · rw [if_neg hminus, if_pos hshort, if_pos (Or.inr hshort)]
        have hlow : 0 ≤ value.toInt := Int16.le_iff_toInt_le.1 hshort.1
        have hhigh : value.toInt ≤ 5 := Int16.le_iff_toInt_le.1 hshort.2
        have hcases : value = 0 ∨ value = 1 ∨ value = 2 ∨ value = 3 ∨ value = 4 ∨
            value = 5 := by
          simp only [← Int16.toInt_inj]
          simp only [Int16.reduceToInt]
          omega
        rcases hcases with rfl | rfl | rfl | rfl | rfl | rfl <;>
          exact Reads.pure _ []
      · rw [if_neg hminus, if_neg hshort, if_neg (not_or.2 ⟨hminus, hshort⟩)]
        split <;> exact (reads_operand (int16?_toString value) []).map _
  | _ => exact Reads.pure _ []

theorem reads_condition (condition : Condition) (target : String) :
    Reads (element condition.mnemonic) [target] (.branch (.test condition target))
      [] [target] := by
  cases condition with
  | zero comparison | ints comparison | refs comparison | null comparison =>
    cases comparison <;> exact (reads_label target []).map _

theorem reads_operator (operator : Operator) :
    Reads (element operator.mnemonic) [] (.operator operator) [] [] := by
  have hread : element operator.mnemonic = pure (.operator operator) := by
    have hknown := operator.ofMnemonic?_mnemonic
    unfold element
    split
    -- A mnemonic of the table is not one of an operator, so only the last case
    -- is left.
    all_goals first
      | rw [hknown]
      | next hliteral =>
        have hnone : Operator.ofMnemonic? operator.mnemonic = none := by
          rw [hliteral]
          rfl
        rw [hknown] at hnone
        cases hnone
  rw [hread]
  exact Reads.pure _ []

theorem reads_element {element : ElementOf String} (h : element.IsReadable)
    (hinstruction : element.isLabel = false) :
    Reads (LineReader.element (element.mnemonic id)) (element.operands id)
      element.computational [] element.labels := by
  cases element with
  | load kind slot => exact reads_load h slot
  | store kind slot => exact reads_store h slot
  | increment slot amount =>
    apply (reads_slot slot _).bind
    exact (reads_operand (int16?_toString amount) []).map _
  | constant value => exact reads_constant value
  | operator operator => exact reads_operator operator
  | branch branch =>
    cases branch with
    | test condition target => exact reads_condition condition target
    | goto target => exact (reads_label target []).map _
    | tableSwitch default low targets =>
      have hread := (reads_tableSwitch default low h).map ElementOf.branch
      simp only [ElementOf.operands, Branch.operands, List.map_id]
      exact hread
    | lookupSwitch default targets =>
      exact (reads_lookupSwitch default targets).map _
  | methodReturn kind => exact reads_methodReturn kind
  | athrow => exact Reads.pure _ []
  | label placed => cases hinstruction
  | line number => exact (reads_operand (uint16?_toString number) []).map _
  | handler entry =>
    exact (reads_handler fun name hname => (h name hname).2).map _
  | localVariable entry => exact (reads_localVariable entry).map _
  | localVariableType entry => exact (reads_localVariableType entry).map _

theorem placedName?_append_colon (name : String) :
    placedName? (name ++ ":") = some name := by
  simp [placedName?]

/-- A word without a colon is not the place of a label. -/
theorem placedName?_eq_none {word : String} (h : ':' ∉ word.toList) :
    placedName? word = none := by
  unfold placedName?
  split
  · next name hlast =>
    refine absurd ?_ h
    rw [← List.mem_reverse, hlast]
    exact List.mem_cons_self
  · rfl

/-- The element of a line, by its first word. -/
def elementOf (mnemonic : String) : LineReader (ElementOf String) :=
  match placedName? mnemonic with
  | some name => do return .label (← mention name)
  | none => element mnemonic

/-- The end of a line, at which nothing may be left. -/
def end? (element : ElementOf String) : LineReader (Option (ElementOf String)) := do
  match ← remaining with
  | [] => return some element
  | word :: _ => throw (.extraOperand word)

/-- A line that is not empty has an element and an end. -/
theorem run_line (mnemonic : String) (words mentioned : List String) :
    line.run { words := mnemonic :: words, mentioned } =
      (elementOf mnemonic >>= end?).run { words, mentioned } := by
  have hline : line.run { words := mnemonic :: words, mentioned } =
      (match placedName? mnemonic with
      | some name => (do end? (.label (← mention name)))
      | none => (do end? (← element mnemonic))).run { words, mentioned } := rfl
  rw [hline]
  unfold elementOf
  cases placedName? mnemonic <;> rfl

theorem reads_line {mnemonic : String} {element : ElementOf String}
    (h : Reads (elementOf mnemonic) words element [] names) :
    Reads line (mnemonic :: words) (some element) [] names := by
  intro mentioned
  rw [run_line]
  apply h.last
  apply (reads_remaining []).last
  exact Reads.pure (some element) []

theorem reads_elementOf {element : ElementOf String} (h : element.IsReadable) :
    Reads (elementOf (element.mnemonic id)) (element.operands id)
      element.computational [] element.labels := by
  unfold elementOf
  cases hlabel : element.isLabel with
  | false =>
    have hnone := placedName?_eq_none (ElementOf.isBareWord_mnemonic id hlabel).2
    simp only [hnone]
    exact reads_element h hlabel
  | true =>
    cases element with
    | label placed =>
      simp only [ElementOf.mnemonic, placedName?_append_colon]
      exact (reads_mention placed []).map _
    | _ => cases hlabel

end LineReader

/-- **The line of an element is read as that element**, with names for labels
and the kinds that instructions know, and the names that it mentions are met in
its order. -/
theorem readLine_text {ℓ : Type} {name : ℓ → String}
    (hnames : ∀ label, IsWord (name label)) {element : ElementOf ℓ}
    (h : element.IsReadable) :
    readLine (element.text name).toList =
      (.ok (some (element.map name).computational), element.labels.map name) := by
  have hreads := LineReader.reads_line
    (LineReader.reads_elementOf ((ElementOf.isReadable_map (f := name)).2 h))
  rw [readLine, element.wordsOf_text hnames h, ← element.mnemonic_map,
    ← element.operands_map, hreads []]
  simp [element.labels_map]

/-- An element that is written as it is executed, in a line that can be read. -/
structure ElementOf.IsStandard {ℓ : Type} (element : ElementOf ℓ) : Prop where
  isReadable : element.IsReadable
  computational_eq : element.computational = element

namespace LineReader

variable {α β : Type} {reader : LineReader α} {property other : α → Prop}

/-- Off the words of a line, the reader gives only what has the property, and it
leaves words. -/
def Gives (reader : LineReader α) (property : α → Prop) : Prop :=
  ∀ state, (∀ word ∈ state.words, IsWord word) →
    ∀ value after, reader.run state = (.ok value, after) →
      property value ∧ ∀ word ∈ after.words, IsWord word

theorem Gives.pure {value : α} (h : property value) :
    Gives (Pure.pure value) property := by
  intro state hwords given after hrun
  cases hrun
  exact ⟨h, hwords⟩

theorem Gives.throw (fault : LineFault) : Gives (throw fault) property := by
  intro state hwords given after hrun
  cases hrun

theorem Gives.bind {result : β → Prop} {next : α → LineReader β}
    (h : Gives reader property)
    (hnext : ∀ value, property value → Gives (next value) result) :
    Gives (reader >>= next) result := by
  intro state hwords given after hrun
  rw [run_bind] at hrun
  split at hrun
  · next value middle hfirst =>
    obtain ⟨hvalue, hmiddle⟩ := h state hwords value middle hfirst
    exact hnext value hvalue middle hmiddle given after hrun
  · cases hrun

theorem gives_word (missing : LineFault) : Gives (word missing) IsWord := by
  intro state hwords given after hrun
  obtain ⟨words, mentioned⟩ := state
  cases words with
  | nil => cases hrun
  | cons first words =>
    cases hrun
    exact List.forall_mem_cons.1 hwords

theorem gives_mention (name : String) : Gives (mention name) fun _ => True := by
  intro state hwords given after hrun
  cases hrun
  exact ⟨trivial, hwords⟩

theorem gives_remaining : Gives remaining fun _ => True := by
  intro state hwords given after hrun
  cases hrun
  exact ⟨trivial, fun _ hmem => absurd hmem List.not_mem_nil⟩

theorem gives_label : Gives label fun _ => True :=
  (gives_word _).bind fun name _ => gives_mention name

theorem gives_operand (what : String) (read? : List Char → Option α) :
    Gives (operand what read?) fun _ => True := by
  apply (gives_word _).bind
  intro word hword
  split
  · exact Gives.pure trivial
  · exact Gives.throw _

theorem gives_slot : Gives slot fun _ => True :=
  gives_operand _ _

theorem gives_localName : Gives localName fun name => IsPlain name.text := by
  apply (gives_word _).bind
  intro word hword
  split
  · next name hread =>
    have htext : name.text = word := by
      unfold UnqualifiedName.ofString at hread
      split at hread
      · cases hread
        rfl
      · cases hread
    apply Gives.pure
    rw [htext]
    exact hword.2
  · exact Gives.throw _

theorem gives_fieldType : Gives fieldType fun type => IsPlain type.render := by
  apply (gives_word _).bind
  intro word hword
  split
  · next type hread =>
    have htext : word = type.render := FieldType.takesWritten.whole_iff.1 hread
    apply Gives.pure
    rw [← htext]
    exact hword.2
  · exact Gives.throw _

theorem gives_catchType :
    Gives catchType fun class? => ∀ name, class? = some name →
      IsPlain name.text ∧ name.text ≠ "any" := by
  apply (gives_word _).bind
  intro word hword
  split
  · apply Gives.pure
    intro name hnone
    cases hnone
  · next hclass =>
    split
    · next name hread =>
      have htext := BinaryName.ofString_eq_ok_iff.1 hread
      apply Gives.pure
      intro other hother
      cases hother
      rw [← htext]
      exact ⟨hword.2, hclass⟩
    · exact Gives.throw _

theorem gives_labels (words : List String) : Gives (labels words) fun _ => True := by
  induction words with
  | nil => exact Gives.pure trivial
  | cons word words ih =>
    apply (gives_mention word).bind
    intro name _
    exact ih.bind fun _ _ => Gives.pure trivial

theorem gives_pairs (words : List String) : Gives (pairs words) fun _ => True := by
  induction words with
  | nil => exact Gives.pure trivial
  | cons word words ih =>
    simp only [pairs]
    split
    · exact Gives.throw _
    · split
      · exact Gives.throw _
      · apply (gives_mention _).bind
        intro name _
        exact ih.bind fun _ _ => Gives.pure trivial

theorem gives_tableSwitch :
    Gives tableSwitch fun branch => (ElementOf.branch branch).IsReadable := by
  apply (gives_operand _ _).bind
  intro low _
  apply gives_label.bind
  intro default _
  apply gives_remaining.bind
  intro words _
  apply (gives_labels words).bind
  intro targets _
  split
  · exact Gives.throw _
  · next hsome => exact Gives.pure hsome

theorem gives_lookupSwitch :
    Gives lookupSwitch fun branch => (ElementOf.branch branch).IsReadable := by
  apply gives_label.bind
  intro default _
  apply gives_remaining.bind
  intro words _
  apply (gives_pairs words).bind
  intro targets _
  exact Gives.pure trivial

theorem gives_handler :
    Gives handler fun entry => (ElementOf.handler entry).IsReadable := by
  apply gives_label.bind
  intro tryStart _
  apply gives_label.bind
  intro tryStop _
  apply gives_label.bind
  intro start _
  apply gives_catchType.bind
  intro class? hclass
  exact Gives.pure hclass

theorem gives_localVariable :
    Gives localVariable fun entry => (ElementOf.localVariable entry).IsReadable := by
  apply gives_slot.bind
  intro slot _
  apply gives_localName.bind
  intro name hname
  apply gives_fieldType.bind
  intro type htype
  apply gives_label.bind
  intro start _
  apply gives_label.bind
  intro stop _
  exact Gives.pure ⟨hname, htype⟩

theorem gives_localVariableType :
    Gives localVariableType fun entry =>
      (ElementOf.localVariableType entry).IsReadable := by
  apply gives_slot.bind
  intro slot _
  apply gives_localName.bind
  intro name hname
  apply (gives_word _).bind
  intro signature hsignature
  apply gives_label.bind
  intro start _
  apply gives_label.bind
  intro stop _
  exact Gives.pure ⟨hname, hsignature.2, hsignature.1⟩

theorem gives_typed (mnemonic : String) {kind : Kind} (hvoid : kind ≠ .void)
    (hkind : kind.computational = kind) (family : List Char) :
    Gives (typed mnemonic kind family) ElementOf.IsStandard := by
  have hload (slot : Slot) : (ElementOf.load kind slot : ElementOf String).IsStandard :=
    ⟨hvoid, by rw [ElementOf.computational, hkind]⟩
  have hstore (slot : Slot) : (ElementOf.store kind slot : ElementOf String).IsStandard :=
    ⟨hvoid, by rw [ElementOf.computational, hkind]⟩
  unfold typed
  split
  · exact Gives.pure ⟨trivial, by rw [ElementOf.computational, hkind]⟩
  · split
    · exact gives_slot.bind fun slot _ => Gives.pure (hload slot)
    · split
      · exact gives_slot.bind fun slot _ => Gives.pure (hstore slot)
      · split
        · exact Gives.pure (hload _)
        · exact Gives.pure (hstore _)
        · exact Gives.throw _

theorem gives_patterned (mnemonic : String) :
    Gives (patterned mnemonic) ElementOf.IsStandard := by
  unfold patterned
  simp only
  split
  · split
    · exact Gives.pure ⟨trivial, rfl⟩
    · exact Gives.throw _
  · split
    · split
      · exact gives_label.bind fun _ _ => Gives.pure ⟨trivial, rfl⟩
      · exact Gives.throw _
    · split
      · exact gives_label.bind fun _ _ => Gives.pure ⟨trivial, rfl⟩
      · split
        · exact Gives.throw _
        · next letter family _ =>
          split
          · next kind hletter =>
            have hkind : kind ≠ .void ∧ kind.computational = kind := by
              unfold Kind.ofLetter? at hletter
              split at hletter <;> cases hletter <;> decide
            exact gives_typed mnemonic hkind.1 hkind.2 family
          · exact Gives.throw _

theorem gives_element (mnemonic : String) :
    Gives (element mnemonic) ElementOf.IsStandard := by
  have htarget (f : String → ElementOf String) (h : ∀ name, (f name).IsStandard) :
      Gives (do return f (← label)) ElementOf.IsStandard :=
    gives_label.bind fun name _ => Gives.pure (h name)
  unfold element
  split
  -- The mnemonics without operands, and those of a label alone.
  any_goals exact Gives.pure ⟨trivial, rfl⟩
  any_goals exact htarget _ fun name => ⟨trivial, rfl⟩
  · apply gives_slot.bind
    intro slot _
    exact (gives_operand _ _).bind fun _ _ => Gives.pure ⟨trivial, rfl⟩
  · exact (gives_operand _ _).bind fun _ _ => Gives.pure ⟨trivial, rfl⟩
  · exact (gives_operand _ _).bind fun _ _ => Gives.pure ⟨trivial, rfl⟩
  · exact gives_tableSwitch.bind fun _ h => Gives.pure ⟨h, rfl⟩
  · exact gives_lookupSwitch.bind fun _ h => Gives.pure ⟨h, rfl⟩
  · exact (gives_operand _ _).bind fun _ _ => Gives.pure ⟨trivial, rfl⟩
  · exact gives_handler.bind fun _ h => Gives.pure ⟨h, rfl⟩
  · exact gives_localVariable.bind fun _ h => Gives.pure ⟨h, rfl⟩
  · exact gives_localVariableType.bind fun _ h => Gives.pure ⟨h, rfl⟩
  · split
    · exact Gives.pure ⟨trivial, rfl⟩
    · exact gives_patterned mnemonic

theorem gives_elementOf (mnemonic : String) :
    Gives (elementOf mnemonic) ElementOf.IsStandard := by
  unfold elementOf
  split
  · next name _ =>
    exact (gives_mention name).bind fun _ _ => Gives.pure ⟨trivial, rfl⟩
  · exact gives_element mnemonic

theorem gives_end? {element : ElementOf String} (h : element.IsStandard) :
    Gives (end? element) fun read? => ∀ read ∈ read?, read.IsStandard := by
  apply gives_remaining.bind
  intro words _
  split
  · apply Gives.pure
    intro read hread
    cases hread
    exact h
  · exact Gives.throw _

end LineReader

/-- **What a line is read as can be written and read again.** -/
theorem isStandard_of_readLine {line : List Char} {element : ElementOf String}
    {names : List String} (h : readLine line = (.ok (some element), names)) :
    element.IsStandard := by
  unfold readLine at h
  split at h
  next result state hrun =>
  cases h
  cases hcut : wordsOf (withoutComment line) with
  | nil =>
    rw [hcut] at hrun
    cases hrun
  | cons mnemonic words =>
    have hwords : ∀ word ∈ mnemonic :: words, IsWord word := by
      intro word hmem
      rw [← hcut] at hmem
      exact isWord_of_mem_wordsOf hmem
    rw [hcut, LineReader.run_line] at hrun
    have hgives := (LineReader.gives_elementOf mnemonic).bind
      fun _ h => LineReader.gives_end? h
    exact (hgives _ (List.forall_mem_cons.1 hwords).2 _ _ hrun).1 element rfl

end JvmMethod
