import JvmMethod.Assembly.Line
import JvmMethod.Element.Text
import JvmMethod.Proofs.DescriptorReading
import JvmMethod.Proofs.Relabeling

/-!
# The words of a written element

A written element is a mnemonic and its operands, with a space in front of each
operand.  A reader cuts the line at its blanks again, so it gets the same words
if none of them is empty or has a blank in it, and if no word starts a comment.

* `ElementOf.text_eq`: the line, by its words.
* `wordsOf_line`: what a reader cuts it into.
* `ElementOf.IsReadable`: what an element has to be like so that its line can be
  read back.
-/

namespace JvmMethod

variable {ℓ ℓ' : Type}

/-- The text has no blank, and does not start a comment. -/
def IsPlain (text : String) : Prop :=
  ∀ c ∈ text.toList, isBlank c = false ∧ c ≠ '#'

instance (text : String) : Decidable (IsPlain text) :=
  List.decidableBAll (fun c => isBlank c = false ∧ c ≠ '#') text.toList

/-- The text is a word of a line. -/
def IsWord (text : String) : Prop :=
  text ≠ "" ∧ IsPlain text

instance (text : String) : Decidable (IsWord text) :=
  inferInstanceAs (Decidable (_ ∧ _))

/-- The text is a word without colons, as are mnemonics and numbers.  Labels are
placed, and switch keys end, at a colon. -/
def IsBareWord (text : String) : Prop :=
  IsWord text ∧ ':' ∉ text.toList

instance (text : String) : Decidable (IsBareWord text) :=
  inferInstanceAs (Decidable (_ ∧ _))

section Words

variable {text other : String}

theorem IsPlain.append (h : IsPlain text) (hother : IsPlain other) :
    IsPlain (text ++ other) := by
  intro c hmem
  rw [String.toList_append, List.mem_append] at hmem
  rcases hmem with hmem | hmem
  · exact h c hmem
  · exact hother c hmem

theorem IsWord.append (h : IsWord text) (hother : IsPlain other) :
    IsWord (text ++ other) := by
  refine ⟨?_, h.2.append hother⟩
  intro hempty
  apply h.1
  have hlist := congrArg String.toList hempty
  rw [String.toList_append] at hlist
  exact String.toList_eq_nil_iff.1 (List.append_eq_nil_iff.1 hlist).1

theorem IsBareWord.append (h : IsBareWord text) (hother : IsBareWord other) :
    IsBareWord (text ++ other) := by
  refine ⟨h.1.append hother.1.2, ?_⟩
  rw [String.toList_append, List.mem_append, not_or]
  exact ⟨h.2, hother.2⟩

end Words

section Lines

variable {first : String} {words : List String}

/-- A space stands in front of every word. -/
theorem toList_spaced (words : List String) :
    (spaced words).toList = words.flatMap fun word => ' ' :: word.toList := by
  have hfrom (text : String) :
      (words.foldl (fun text word => text ++ " " ++ word) text).toList =
        text.toList ++ words.flatMap fun word => ' ' :: word.toList := by
    induction words generalizing text with
    | nil => simp
    | cons word words ih => simp [ih]
  exact hfrom ""

/-- Words with a space in front of each are cut apart there. -/
theorem wordsOf_spaced (hfirst : IsWord first) (hwords : ∀ word ∈ words, IsWord word) :
    wordsOf (first.toList ++ (spaced words).toList) = first :: words := by
  have hcut {word : String} (h : IsWord word) : wordsOf word.toList = [word] := by
    have hnonempty : word.toList ≠ [] := fun hempty =>
      h.1 (String.toList_eq_nil_iff.1 hempty)
    rw [wordsOf_of_forall (fun c hmem => (h.2 c hmem).1) hnonempty,
      String.ofList_toList]
  rw [toList_spaced]
  induction words generalizing first with
  | nil => simpa using hcut hfirst
  | cons word words ih =>
    rw [List.forall_mem_cons] at hwords
    rw [List.flatMap_cons, List.cons_append,
      wordsOf_append (by decide : isBlank ' ' = true), hcut hfirst,
      ih hwords.1 hwords.2]
    rfl

/-- **A line of words is cut into these words.** -/
theorem wordsOf_line (hfirst : IsWord first) (hwords : ∀ word ∈ words, IsWord word) :
    wordsOf (withoutComment (first ++ spaced words).toList) = first :: words := by
  have hall : ∀ c ∈ (first ++ spaced words).toList, (c != '#') = true := by
    intro c hmem
    rw [String.toList_append, toList_spaced, List.mem_append,
      List.mem_flatMap] at hmem
    rcases hmem with hmem | ⟨word, hword, hmem⟩
    · simpa using (hfirst.2 c hmem).2
    · rcases List.mem_cons.1 hmem with rfl | hmem
      · decide
      · simpa using ((hwords word hword).2 c hmem).2
  have hsame : withoutComment (first ++ spaced words).toList =
      (first ++ spaced words).toList := by
    unfold withoutComment
    rw [← List.append_nil (first ++ spaced words).toList,
      List.takeWhile_append_of_pos hall]
    rfl
  rw [hsame, String.toList_append, wordsOf_spaced hfirst hwords]

/-- A line of words has no line break. -/
theorem not_mem_line (hfirst : IsWord first) (hwords : ∀ word ∈ words, IsWord word) :
    '\n' ∉ (first ++ spaced words).toList := by
  intro hmem
  rw [String.toList_append, toList_spaced, List.mem_append,
    List.mem_flatMap] at hmem
  rcases hmem with hmem | ⟨word, hword, hmem⟩
  · exact absurd (hfirst.2 _ hmem).1 (by decide)
  · rcases List.mem_cons.1 hmem with hspace | hmem
    · cases hspace
    · exact absurd ((hwords word hword).2 _ hmem).1 (by decide)

/-- A word that has begun ends, and is one word more if it has characters. -/
theorem isWord_of_mem_addWord {begun : List Char}
    (hbegun : ∀ c ∈ begun, isBlank c = false ∧ c ≠ '#')
    (hwords : ∀ word ∈ words, IsWord word) :
    ∀ word ∈ addWord begun words, IsWord word := by
  intro word hmem
  unfold addWord at hmem
  split at hmem
  · exact hwords word hmem
  · next hnonempty =>
    rcases List.mem_cons.1 hmem with rfl | hmem
    · constructor
      · intro hempty
        apply hnonempty
        have hlist := congrArg String.toList hempty
        simpa using hlist
      · intro c hc
        rw [String.toList_ofList, List.mem_reverse] at hc
        exact hbegun c hc
    · exact hwords word hmem

/-- Words that are cut off a text without comment signs, after a word that has
begun and the words in front of it. -/
theorem isWord_of_mem_wordsFrom (text : List Char) (htext : '#' ∉ text)
    {begun : List Char} (hbegun : ∀ c ∈ begun, isBlank c = false ∧ c ≠ '#')
    (hwords : ∀ word ∈ words, IsWord word) :
    ∀ word ∈ wordsFrom begun words text, IsWord word := by
  induction text generalizing begun words with
  | nil =>
    intro word hmem
    rw [wordsFrom, List.mem_reverse] at hmem
    exact isWord_of_mem_addWord hbegun hwords word hmem
  | cons c rest ih =>
    rw [List.mem_cons, not_or] at htext
    unfold wordsFrom
    split
    · apply ih htext.2
      · intro c hmem
        cases hmem
      · exact isWord_of_mem_addWord hbegun hwords
    · next hplain =>
      apply ih htext.2 _ hwords
      rw [List.forall_mem_cons]
      exact ⟨⟨Bool.eq_false_iff.2 hplain, Ne.symm htext.1⟩, hbegun⟩

/-- What a line is cut into are words. -/
theorem isWord_of_mem_wordsOf {line : List Char} {word : String}
    (hmem : word ∈ wordsOf (withoutComment line)) : IsWord word := by
  have hnone : '#' ∉ withoutComment line := by
    intro hcomment
    have hother := List.all_takeWhile (p := (· != '#')) (l := line)
    exact absurd (List.all_eq_true.1 hother '#' hcomment) (by decide)
  exact isWord_of_mem_wordsFrom _ hnone (fun _ h => absurd h List.not_mem_nil)
    (fun _ h => absurd h List.not_mem_nil) word hmem

end Lines

/-- The mnemonic of a constant. -/
def Constant.mnemonic : Constant → String
  | .null => "aconst_null"
  | .int value =>
      if value = -1 then "iconst_m1"
      else if 0 ≤ value ∧ value ≤ 5 then "iconst_" ++ toString value.toInt
      else if -128 ≤ value ∧ value ≤ 127 then "bipush"
      else "sipush"
  | .long0 => "lconst_0"
  | .long1 => "lconst_1"
  | .float0 => "fconst_0"
  | .float1 => "fconst_1"
  | .float2 => "fconst_2"
  | .double0 => "dconst_0"
  | .double1 => "dconst_1"

/-- The operands of a constant: its value, where the mnemonic does not have it. -/
def Constant.operands : Constant → List String
  | .int value =>
      if value = -1 ∨ 0 ≤ value ∧ value ≤ 5 then [] else [toString value.toInt]
  | _ => []

/-- The mnemonic of a branch. -/
def Branch.mnemonic : Branch ℓ → String
  | .test condition _ => condition.mnemonic
  | .goto _ => "goto"
  | .tableSwitch .. => "tableswitch"
  | .lookupSwitch .. => "lookupswitch"

/-- The operands of a branch, given what labels are called. -/
def Branch.operands (name : ℓ → String) : Branch ℓ → List String
  | .test _ target => [name target]
  | .goto target => [name target]
  | .tableSwitch default low targets =>
      toString low.toInt :: name default :: targets.map name
  | .lookupSwitch default targets =>
      name default :: targets.map fun (key, target) =>
        toString key.toInt ++ ":" ++ name target

namespace ElementOf

/-- The first word of a written element, given what labels are called. -/
def mnemonic (name : ℓ → String) : ElementOf ℓ → String
  | .load kind _ => kind.mnemonic "load"
  | .store kind _ => kind.mnemonic "store"
  | .increment _ _ => "iinc"
  | .constant value => value.mnemonic
  | .operator instruction => instruction.mnemonic
  | .branch instruction => instruction.mnemonic
  | .methodReturn kind => kind.mnemonic "return"
  | .athrow => "athrow"
  | .label placed => name placed ++ ":"
  | .line _ => "line"
  | .handler _ => "catch"
  | .localVariable _ => "local"
  | .localVariableType _ => "localtype"

/-- The other words of a written element. -/
def operands (name : ℓ → String) : ElementOf ℓ → List String
  | .load _ slot => [slotText slot]
  | .store _ slot => [slotText slot]
  | .increment slot amount => [slotText slot, toString amount.toInt]
  | .constant value => value.operands
  | .branch instruction => instruction.operands name
  | .line number => [toString number.toNat]
  | .handler entry =>
      [name entry.tryStart, name entry.tryStop, name entry.handler,
        entry.class?.elim "any" BinaryName.text]
  | .localVariable entry =>
      [slotText entry.slot, entry.name.text, entry.type.render,
        name entry.start, name entry.stop]
  | .localVariableType entry =>
      [slotText entry.slot, entry.name.text, entry.signature,
        name entry.start, name entry.stop]
  | _ => []

/-- The line of the element can be read back.  There is no load or store of the
void kind and no table switch without targets, names and descriptors are words,
and no class is called like all exceptions. -/
def IsReadable : ElementOf ℓ → Prop
  | .load kind _ => kind ≠ .void
  | .store kind _ => kind ≠ .void
  | .branch (.tableSwitch _ _ targets) => targets ≠ []
  | .handler entry => ∀ name, entry.class? = some name →
      IsPlain name.text ∧ name.text ≠ "any"
  | .localVariable entry => IsPlain entry.name.text ∧ IsPlain entry.type.render
  | .localVariableType entry =>
      IsPlain entry.name.text ∧ IsPlain entry.signature ∧ entry.signature ≠ ""
  | _ => True

end ElementOf

/-- The line of a constant. -/
theorem Constant.text_eq (value : Constant) :
    value.text = value.mnemonic ++ spaced value.operands := by
  apply String.toList_inj.1
  cases value with
  | int value =>
    simp only [text, mnemonic, operands]
    by_cases hminus : value = -1
    · simp [hminus, toList_spaced]
    · by_cases hshort : 0 ≤ value ∧ value ≤ 5
      · simp [hminus, hshort, toList_spaced]
      · by_cases hbyte : -128 ≤ value ∧ value ≤ 127
        · simp [hminus, hshort, hbyte, toList_spaced]
        · simp [hminus, hshort, hbyte, toList_spaced]
  | _ => rfl

/-- **The line of an element** is its words, with spaces. -/
theorem ElementOf.text_eq (name : ℓ → String) (element : ElementOf ℓ) :
    element.text name = element.mnemonic name ++ spaced (element.operands name) := by
  apply String.toList_inj.1
  cases element with
  | constant value =>
    rw [text, value.text_eq]
    rfl
  | branch instruction =>
    cases instruction <;>
      simp [text, mnemonic, operands, Branch.text, Branch.mnemonic,
        Branch.operands, toList_spaced]
  | handler entry =>
    obtain ⟨tryStart, tryStop, start, class?⟩ := entry
    cases class? <;> rfl
  | _ => simp [text, mnemonic, operands, toList_spaced]

namespace ElementOf

variable {f : ℓ → ℓ'} {element : ElementOf ℓ}

/-- Naming labels is replacing them by their names. -/
theorem mnemonic_map (f : ℓ → String) (element : ElementOf ℓ) :
    (element.map f).mnemonic id = element.mnemonic f := by
  cases element with
  | branch instruction => cases instruction <;> rfl
  | _ => rfl

theorem operands_map (f : ℓ → String) (element : ElementOf ℓ) :
    (element.map f).operands id = element.operands f := by
  cases element with
  | branch instruction =>
    cases instruction with
    | test _ _ | goto _ => rfl
    | tableSwitch _ _ _ | lookupSwitch _ _ =>
      simp [map, Branch.map, operands, Branch.operands]
  | _ => rfl

theorem isReadable_map : (element.map f).IsReadable ↔ element.IsReadable := by
  cases element with
  | branch instruction =>
    cases instruction with
    | tableSwitch _ _ _ => simp [map, Branch.map, IsReadable]
    | test _ _ | goto _ | lookupSwitch _ _ => rfl
  | _ => rfl

end ElementOf

section Numerals

/-- A decimal digit is no blank, and starts or ends nothing. -/
theorem plain_of_isDigit {c : Char} (h : c.isDigit = true) :
    isBlank c = false ∧ c ≠ '#' ∧ c ≠ ':' := by
  rw [Char.isDigit_iff_toNat] at h
  change 48 ≤ c.toNat ∧ c.toNat ≤ 57 at h
  refine ⟨?_, ?_, ?_⟩
  · simp only [isBlank, Bool.or_eq_false_iff, Bool.and_eq_false_iff,
      decide_eq_false_iff_not, beq_eq_false_iff_ne]
    omega
  · intro hsame
    rw [hsame] at h
    exact absurd h (by decide)
  · intro hsame
    rw [hsame] at h
    exact absurd h (by decide)

theorem isBareWord_toString (number : Nat) : IsBareWord (toString number) := by
  have hlist : (toString number).toList = Nat.toDigits 10 number :=
    Nat.toList_repr
  have hplain (c : Char) (hmem : c ∈ (toString number).toList) :
      isBlank c = false ∧ c ≠ '#' ∧ c ≠ ':' := by
    rw [hlist] at hmem
    exact plain_of_isDigit (Nat.isDigit_of_mem_toDigits (by decide) (by decide) hmem)
  refine ⟨⟨?_, ?_⟩, ?_⟩
  · intro hempty
    rw [hempty] at hlist
    exact Nat.toDigits_ne_nil hlist.symm
  · intro c hmem
    exact ⟨(hplain c hmem).1, (hplain c hmem).2.1⟩
  · intro hcolon
    exact (hplain ':' hcolon).2.2 rfl

theorem isBareWord_toString_int (number : Int) : IsBareWord (toString number) := by
  cases number with
  | ofNat number => exact isBareWord_toString number
  | negSucc number =>
    have hsign : IsBareWord "-" := by decide
    exact hsign.append (isBareWord_toString (number + 1))

theorem Label.isWord_text (label : Label) : IsWord label.text := by
  have hletter : IsWord "l" := by decide
  exact hletter.append (isBareWord_toString label.index).1.2

end Numerals

section Elements

variable {name : ℓ → String}

theorem Kind.isBareWord_mnemonic (kind : Kind) {family : String}
    (h : IsBareWord family) : IsBareWord (kind.mnemonic family) := by
  have hletter (c : Char) (hc : kind.letter? = some c) : IsBareWord c.toString := by
    cases kind <;> cases hc <;> decide
  unfold mnemonic
  split
  · next letter hsome => exact (hletter letter hsome).append h
  · exact h

theorem Condition.isBareWord_mnemonic (condition : Condition) :
    IsBareWord condition.mnemonic := by
  cases condition with
  | zero comparison | ints comparison | refs comparison | null comparison =>
    cases comparison <;> decide

theorem Operator.isBareWord_mnemonic (operator : Operator) :
    IsBareWord operator.mnemonic := by
  cases operator <;> decide

theorem Constant.isBareWord_mnemonic (value : Constant) :
    IsBareWord value.mnemonic := by
  cases value with
  | int value =>
    have hshort : IsBareWord ("iconst_" ++ toString value.toInt) :=
      (by decide : IsBareWord "iconst_").append (isBareWord_toString_int value.toInt)
    simp only [mnemonic]
    split
    · decide
    · split
      · exact hshort
      · split <;> decide
  | _ => decide

theorem Constant.isWord_of_mem_operands {value : Constant} {word : String}
    (hmem : word ∈ value.operands) : IsWord word := by
  cases value with
  | int value =>
    simp only [operands] at hmem
    split at hmem
    · cases hmem
    · rw [List.mem_singleton] at hmem
      rw [hmem]
      exact (isBareWord_toString_int value.toInt).1
  | _ => cases hmem

theorem Branch.isWord_of_mem_operands (hnames : ∀ label, IsWord (name label))
    {branch : Branch ℓ} {word : String} (hmem : word ∈ branch.operands name) :
    IsWord word := by
  cases branch with
  | test condition target | goto target =>
    rw [operands, List.mem_singleton] at hmem
    rw [hmem]
    exact hnames target
  | tableSwitch default low targets =>
    rw [operands, List.mem_cons, List.mem_cons, List.mem_map] at hmem
    rcases hmem with rfl | rfl | ⟨target, -, rfl⟩
    · exact (isBareWord_toString_int low.toInt).1
    · exact hnames default
    · exact hnames target
  | lookupSwitch default targets =>
    rw [operands, List.mem_cons, List.mem_map] at hmem
    rcases hmem with rfl | ⟨⟨key, target⟩, -, rfl⟩
    · exact hnames default
    · have hcolon : IsPlain ":" := by decide
      exact ((isBareWord_toString_int key.toInt).1.append hcolon).append (hnames target).2

theorem UnqualifiedName.text_ne_empty (name : UnqualifiedName) : name.text ≠ "" := by
  intro hempty
  apply name.isUnqualified.1
  rw [hempty]
  rfl

theorem BinaryName.text_ne_empty (name : BinaryName) : name.text ≠ "" := by
  intro hempty
  have hpart := name.isBinary [] (by rw [hempty]; decide)
  exact hpart.1 rfl

theorem FieldType.render_ne_empty (type : FieldType) : type.render ≠ "" := by
  intro hempty
  obtain ⟨c, left, hchars, -⟩ := type.exists_chars_eq
  have hlist : type.render.toList = type.chars := String.toList_ofList
  rw [hempty, hchars] at hlist
  cases hlist

namespace ElementOf

theorem isBareWord_mnemonic (name : ℓ → String) {element : ElementOf ℓ}
    (h : element.isLabel = false) : IsBareWord (element.mnemonic name) := by
  cases element with
  | load kind _ | store kind _ | methodReturn kind =>
    exact kind.isBareWord_mnemonic (by decide)
  | constant value => exact value.isBareWord_mnemonic
  | operator instruction => exact instruction.isBareWord_mnemonic
  | branch instruction =>
    cases instruction with
    | test condition _ => exact condition.isBareWord_mnemonic
    | goto _ => exact (by decide : IsBareWord "goto")
    | tableSwitch _ _ _ => exact (by decide : IsBareWord "tableswitch")
    | lookupSwitch _ _ => exact (by decide : IsBareWord "lookupswitch")
  | label _ => cases h
  | increment _ _ => exact (by decide : IsBareWord "iinc")
  | athrow => exact (by decide : IsBareWord "athrow")
  | line _ => exact (by decide : IsBareWord "line")
  | handler _ => exact (by decide : IsBareWord "catch")
  | localVariable _ => exact (by decide : IsBareWord "local")
  | localVariableType _ => exact (by decide : IsBareWord "localtype")

theorem isWord_mnemonic (hnames : ∀ label, IsWord (name label))
    (element : ElementOf ℓ) : IsWord (element.mnemonic name) := by
  cases hlabel : element.isLabel with
  | false => exact (isBareWord_mnemonic name hlabel).1
  | true =>
    cases element with
    | label placed => exact (hnames placed).append (by decide)
    | _ => cases hlabel

/-- The operands of an element that can be read back are words. -/
theorem isWord_of_mem_operands (hnames : ∀ label, IsWord (name label))
    {element : ElementOf ℓ} (h : element.IsReadable) {word : String}
    (hmem : word ∈ element.operands name) : IsWord word := by
  cases element with
  | load _ slot | store _ slot =>
    rw [operands, List.mem_singleton] at hmem
    rw [hmem]
    exact (isBareWord_toString slot.toNat).1
  | increment slot amount =>
    rw [operands, List.mem_cons, List.mem_singleton] at hmem
    rcases hmem with rfl | rfl
    · exact (isBareWord_toString slot.toNat).1
    · exact (isBareWord_toString_int amount.toInt).1
  | constant value => exact Constant.isWord_of_mem_operands hmem
  | branch instruction => exact Branch.isWord_of_mem_operands hnames hmem
  | line number =>
    rw [operands, List.mem_singleton] at hmem
    rw [hmem]
    exact (isBareWord_toString number.toNat).1
  | handler entry =>
    obtain ⟨tryStart, tryStop, start, class?⟩ := entry
    simp only [operands, List.mem_cons, List.not_mem_nil, or_false] at hmem
    rcases hmem with rfl | rfl | rfl | rfl
    · exact hnames tryStart
    · exact hnames tryStop
    · exact hnames start
    · cases class? with
      | none => decide
      | some name => exact ⟨name.text_ne_empty, (h name rfl).1⟩
  | localVariable entry =>
    simp only [operands, List.mem_cons, List.not_mem_nil, or_false] at hmem
    rcases hmem with rfl | rfl | rfl | rfl | rfl
    · exact (isBareWord_toString entry.slot.toNat).1
    · exact ⟨entry.name.text_ne_empty, h.1⟩
    · exact ⟨entry.type.render_ne_empty, h.2⟩
    · exact hnames entry.start
    · exact hnames entry.stop
  | localVariableType entry =>
    simp only [operands, List.mem_cons, List.not_mem_nil, or_false] at hmem
    rcases hmem with rfl | rfl | rfl | rfl | rfl
    · exact (isBareWord_toString entry.slot.toNat).1
    · exact ⟨entry.name.text_ne_empty, h.1⟩
    · exact ⟨h.2.2, h.2.1⟩
    · exact hnames entry.start
    · exact hnames entry.stop
  | operator _ | methodReturn _ | athrow | label _ => cases hmem

/-- **The line of an element is cut into its words.** -/
theorem wordsOf_text (hnames : ∀ label, IsWord (name label))
    {element : ElementOf ℓ} (h : element.IsReadable) :
    wordsOf (withoutComment (element.text name).toList) =
      element.mnemonic name :: element.operands name := by
  rw [text_eq]
  exact wordsOf_line (element.isWord_mnemonic hnames)
    fun _ => isWord_of_mem_operands hnames h

/-- The line of an element is one line. -/
theorem not_mem_text (hnames : ∀ label, IsWord (name label))
    {element : ElementOf ℓ} (h : element.IsReadable) :
    '\n' ∉ (element.text name).toList := by
  rw [text_eq]
  exact not_mem_line (element.isWord_mnemonic hnames)
    fun _ => isWord_of_mem_operands hnames h

end ElementOf

end Elements

end JvmMethod
