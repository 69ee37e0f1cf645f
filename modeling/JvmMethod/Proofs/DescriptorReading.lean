import JvmMethod.Descriptor.Reader

/-!
# Descriptors are read exactly as they are written

A descriptor shows where it ends.  `TakesWritten` says so of a reader: it takes
a value off the front of its input and leaves a rest precisely if the input is
the value, written, and that rest.  The five readers are layered: names in
classes, classes and base types in references, references and base types in
fields, fields in methods.  Each layer looks at one character to know which of
the layers below goes on, so the proofs follow the characters that a written
form may start with.

* `TakesWritten.delimits`: what was written can be told from what follows it.
* `TakesWritten.whole_iff`: reading a whole text undoes writing it.
* `reads_exactly`: all of this, for the five kinds of descriptors.
-/

namespace JvmMethod

/-- A reader takes a value and leaves a rest precisely if its input is the value,
written, and the rest. -/
def TakesWritten {α : Type} (chars : α → List Char)
    (read : List Char → Taken α) : Prop :=
  ∀ input value rest,
    read input = (.ok value, rest) ↔ input = chars value ++ rest

/-- Changing what was read keeps success and failure apart. -/
theorem Taken.map_eq_ok_iff {α β : Type} {f : α → β} {taken : Taken α}
    {value : β} {rest : List Char} :
    taken.map f = (.ok value, rest) ↔
      ∃ read, taken = (.ok read, rest) ∧ f read = value := by
  obtain ⟨answer, left⟩ := taken
  cases answer with
  | error fault => simp [Taken.map, Except.map]
  | ok read =>
    simp only [Taken.map, Except.map, Prod.mk.injEq, Except.ok.injEq]
    constructor
    · intro h
      obtain ⟨hvalue, hrest⟩ := h
      exact ⟨read, ⟨rfl, hrest⟩, hvalue⟩
    · intro h
      obtain ⟨_, ⟨rfl, hrest⟩, hvalue⟩ := h
      exact ⟨hvalue, hrest⟩

/-- A reader of whole texts that reads off the front first. -/
theorem Taken.whole_eq_ok_iff {α : Type} {source : String} {taken : Taken α}
    {value : α} : taken.whole source = .ok value ↔ taken = (.ok value, []) := by
  obtain ⟨answer | read, left⟩ := taken
  · simp [Taken.whole]
  · cases left <;> simp [Taken.whole]

namespace TakesWritten

variable {α : Type} {chars : α → List Char} {read : List Char → Taken α}

theorem read_append (h : TakesWritten chars read) (value : α) (rest : List Char) :
    read (chars value ++ rest) = (.ok value, rest) :=
  (h _ value rest).2 rfl

/-- What reading gives when it is a part of reading something larger. -/
theorem map_iff {β : Type} (h : TakesWritten chars read) {f : α → β}
    {input rest : List Char} {value : β} :
    (read input).map f = (.ok value, rest) ↔
      ∃ part, f part = value ∧ input = chars part ++ rest := by
  rw [Taken.map_eq_ok_iff]
  constructor
  · intro hread
    obtain ⟨part, hpart, hvalue⟩ := hread
    exact ⟨part, hvalue, (h input part rest).1 hpart⟩
  · intro hwritten
    obtain ⟨part, hvalue, hinput⟩ := hwritten
    exact ⟨part, (h input part rest).2 hinput, hvalue⟩

/-- **Written forms delimit themselves.** -/
theorem delimits (h : TakesWritten chars read) {value other : α}
    {rest otherRest : List Char}
    (hsame : chars value ++ rest = chars other ++ otherRest) :
    value = other ∧ rest = otherRest := by
  have hvalue := h.read_append value rest
  rw [hsame, h.read_append other otherRest] at hvalue
  cases hvalue
  exact ⟨rfl, rfl⟩

/-- **Reading a whole text undoes writing it.** -/
theorem whole_iff (h : TakesWritten chars read) {text : String} {value : α} :
    (read text.toList).whole text = .ok value ↔
      text = String.ofList (chars value) := by
  rw [Taken.whole_eq_ok_iff, h, List.append_nil]
  constructor
  · intro hchars
    rw [← hchars, String.ofList_toList]
  · intro htext
    rw [htext, String.toList_ofList]

end TakesWritten

/-- The parts of a text cover it, but for the separators. -/
theorem exists_mem_partsAt {separator c : Char} (hother : c ≠ separator)
    (text : List Char) (hmem : c ∈ text) :
    ∃ part ∈ partsAt separator text, c ∈ part := by
  by_cases hseparated : separator ∈ text
  · obtain ⟨before, behind, rfl, hfirst⟩ := List.eq_append_cons_of_mem hseparated
    rw [partsAt_append separator before behind hfirst]
    rw [List.mem_append, List.mem_cons] at hmem
    rcases hmem with hbefore | hseparator | hbehind
    · exact ⟨before, List.mem_cons_self, hbefore⟩
    · exact absurd hseparator hother
    · obtain ⟨part, hpart, hin⟩ := exists_mem_partsAt hother behind hbehind
      exact ⟨part, List.mem_cons_of_mem _ hpart, hin⟩
  · rw [partsAt_of_not_mem separator text hseparated]
    exact ⟨text, List.mem_singleton.2 rfl, hmem⟩
  termination_by text.length

namespace BinaryName

/-- The name of a class has none of the characters that end a descriptor. -/
theorem ne_semicolon (name : BinaryName) {c : Char}
    (hmem : c ∈ name.text.toList) : c ≠ ';' := by
  intro hsemicolon
  obtain ⟨part, hpart, hin⟩ :=
    exists_mem_partsAt (by rw [hsemicolon]; decide : c ≠ '/') _ hmem
  have hdelimiter := List.any_eq_false.1 (name.isBinary part hpart).2 c hin
  rw [hsemicolon] at hdelimiter
  exact hdelimiter rfl

theorem ofString_eq_ok_iff {text : String} {name : BinaryName} :
    ofString text = .ok name ↔ text = name.text := by
  unfold ofString
  constructor
  · intro h
    split at h
    · cases h
      rfl
    · cases h
  · intro h
    rw [h, dif_pos name.isBinary]

/-- A name ends at the first semicolon. -/
theorem readTerminated_eq_ok_iff {input : List Char} {name : BinaryName}
    {rest : List Char} :
    readTerminated input = (.ok name, rest) ↔
      input = name.text.toList ++ ';' :: rest := by
  constructor
  · intro h
    simp only [readTerminated] at h
    have hsplit := List.takeWhile_append_dropWhile (p := (· != ';')) (l := input)
    cases hdrop : input.dropWhile (· != ';') with
    | nil =>
      rw [hdrop] at h
      cases h
    | cons c left =>
      have hc : c = ';' := by
        have hfirst := List.head?_dropWhile_not (· != ';') input
        rw [hdrop] at hfirst
        simpa using hfirst
      subst hc
      rw [hdrop] at h hsplit
      simp only [Prod.mk.injEq] at h
      obtain ⟨hname, rfl⟩ := h
      cases hread : ofString (String.ofList (input.takeWhile (· != ';'))) with
      | error fault =>
        rw [hread] at hname
        cases hname
      | ok read =>
        rw [hread] at hname
        cases hname
        rw [← ofString_eq_ok_iff.1 hread, String.toList_ofList]
        exact hsplit.symm
  · intro h
    have hall : ∀ c ∈ name.text.toList, (c != ';') = true := by
      intro c hmem
      simpa using name.ne_semicolon hmem
    have htake : input.takeWhile (· != ';') = name.text.toList := by
      rw [h, List.takeWhile_append_of_pos hall]
      simp
    have hdrop : input.dropWhile (· != ';') = ';' :: rest := by
      rw [h, List.dropWhile_append_of_pos hall]
      simp
    have hread := ofString_eq_ok_iff.2 (rfl : name.text = name.text)
    unfold readTerminated
    simp only [htake, hdrop, String.ofList_toList, hread]
    rfl

theorem takesWritten : TakesWritten descriptorChars readDescriptor := by
  intro input name rest
  unfold readDescriptor
  split
  · simp [descriptorChars]
  · rw [readTerminated_eq_ok_iff]
    simp [descriptorChars]
  · next c left hother =>
    have hfirst : c ≠ 'L' := hother
    simp [descriptorChars, hfirst]

end BinaryName

theorem BaseType.ofLetter?_eq_some_iff {c : Char} {type : BaseType} :
    ofLetter? c = some type ↔ c = type.letter := by
  constructor
  · intro h
    unfold ofLetter? at h
    split at h <;> cases h <;> rfl
  · intro h
    rw [h, ofLetter?_letter]

theorem BaseType.takesWritten : TakesWritten BaseType.chars BaseType.read := by
  intro input type rest
  cases input with
  | nil => simp [read, chars]
  | cons c left =>
    simp only [read]
    cases hletter : ofLetter? c with
    | none =>
      have hother : c ≠ type.letter := by
        intro h
        rw [ofLetter?_eq_some_iff.2 h] at hletter
        cases hletter
      simp [chars, hother]
    | some read =>
      have hc := ofLetter?_eq_some_iff.1 hletter
      constructor
      · intro h
        cases h
        simp [chars, hc]
      · intro h
        simp only [chars, List.cons_append, List.nil_append, List.cons.injEq] at h
        obtain ⟨hsame, rfl⟩ := h
        rw [ofLetter?_eq_some_iff.2 hsame] at hletter
        cases hletter
        rfl

/-- A written base type starts with its letter, which opens nothing else. -/
theorem BaseType.letter_ne (type : BaseType) :
    type.letter ≠ '[' ∧ type.letter ≠ 'L' ∧ type.letter ≠ ')' ∧
      type.letter ≠ 'V' := by
  cases type <;> decide

namespace RefType

/-- The element type of an array is a class or a base type. -/
theorem readElement_eq_ok_iff {extraDims : Nat} {input rest : List Char}
    {type : RefType} :
    readElement extraDims input = (.ok type, rest) ↔
      (∃ name, objectArray extraDims name = type ∧
        input = name.descriptorChars ++ rest) ∨
      ∃ element, primitiveArray extraDims element = type ∧
        input = element.chars ++ rest := by
  unfold readElement
  split
  · next left =>
    have hclass (element : BaseType) : 'L' :: left ≠ element.chars ++ rest := by
      have hletter := element.letter_ne.2.1
      simp [BaseType.chars, Ne.symm hletter]
    rw [BinaryName.takesWritten.map_iff]
    simp [hclass]
  · next hother =>
    have hbase (name : BinaryName) : input ≠ name.descriptorChars ++ rest := by
      intro h
      exact hother _ h
    rw [BaseType.takesWritten.map_iff]
    simp [hbase]

/-- The brackets of an array end where its element type starts. -/
theorem brackets (count : Nat) {c : Char} (hother : c ≠ '[') (left : List Char) :
    (List.replicate count '[' ++ c :: left).takeWhile (· == '[') =
        List.replicate count '[' ∧
      (List.replicate count '[' ++ c :: left).dropWhile (· == '[') =
        c :: left := by
  have hall : ∀ bracket ∈ List.replicate count '[', (bracket == '[') = true := by
    intro bracket hmem
    rw [List.eq_of_mem_replicate hmem]
    rfl
  rw [List.takeWhile_append_of_pos hall, List.dropWhile_append_of_pos hall]
  simp [hother]

/-- Behind the first bracket of an array. -/
theorem readElement_brackets_iff {left rest : List Char} {type : RefType} :
    readElement (left.takeWhile (· == '[')).length
        (left.dropWhile (· == '[')) = (.ok type, rest) ↔
      '[' :: left = type.chars ++ rest := by
  rw [readElement_eq_ok_iff]
  constructor
  · intro h
    have hsplit := List.takeWhile_append_dropWhile (p := (· == '[')) (l := left)
    have hbrackets : left.takeWhile (· == '[') =
        List.replicate (left.takeWhile (· == '[')).length '[' := by
      rw [List.eq_replicate_iff]
      refine ⟨rfl, fun bracket hmem => ?_⟩
      simpa using List.all_eq_true.1 List.all_takeWhile bracket hmem
    rcases h with ⟨name, rfl, helement⟩ | ⟨element, rfl, helement⟩ <;>
      rw [chars, List.replicate_succ, ← hbrackets, List.append_assoc, ← helement,
        List.cons_append, hsplit]
  · intro h
    cases type with
    | object name => simp [chars, BinaryName.descriptorChars] at h
    | objectArray extraDims name =>
      left
      have hleft : left = List.replicate extraDims '[' ++
          'L' :: (name.text.toList ++ [';'] ++ rest) := by
        simpa [chars, List.replicate_succ, BinaryName.descriptorChars] using h
      obtain ⟨htake, hdrop⟩ := brackets extraDims (c := 'L') (by decide)
        (name.text.toList ++ [';'] ++ rest)
      rw [← hleft] at htake hdrop
      rw [htake, hdrop, List.length_replicate]
      exact ⟨name, rfl, rfl⟩
    | primitiveArray extraDims element =>
      right
      have hleft : left = List.replicate extraDims '[' ++ element.letter :: rest := by
        simpa [chars, List.replicate_succ, BaseType.chars] using h
      obtain ⟨htake, hdrop⟩ := brackets extraDims element.letter_ne.1 rest
      rw [← hleft] at htake hdrop
      rw [htake, hdrop, List.length_replicate]
      exact ⟨element, rfl, rfl⟩

theorem takesWritten : TakesWritten RefType.chars RefType.read := by
  intro input type rest
  unfold read
  split
  · cases type <;> simp [chars, List.replicate_succ, BinaryName.descriptorChars]
  · rw [BinaryName.takesWritten.map_iff]
    cases type <;> simp [chars, List.replicate_succ]
  · exact readElement_brackets_iff
  · next c left hclass harray =>
    have hfirst : c ≠ 'L' ∧ c ≠ '[' := ⟨hclass, harray⟩
    cases type <;>
      simp [chars, List.replicate_succ, BinaryName.descriptorChars, hfirst]

/-- A written reference type starts with one of two characters. -/
theorem exists_chars_eq (type : RefType) :
    ∃ left, type.chars = 'L' :: left ∨ type.chars = '[' :: left := by
  cases type with
  | object name => exact ⟨_, .inl rfl⟩
  | objectArray _ _ | primitiveArray _ _ => exact ⟨_, .inr rfl⟩

end RefType

namespace FieldType

theorem takesWritten : TakesWritten FieldType.chars FieldType.read := by
  intro input type rest
  have hbase (element : BaseType) {c : Char} {left : List Char}
      (hopens : c = 'L' ∨ c = '[') : c :: left ≠ element.chars ++ rest := by
    obtain ⟨harray, hclass, -⟩ := element.letter_ne
    rcases hopens with rfl | rfl
    · simp [BaseType.chars, Ne.symm hclass]
    · simp [BaseType.chars, Ne.symm harray]
  unfold read
  split
  · cases type with
    | base element => simp [chars, BaseType.chars]
    | ref type =>
      obtain ⟨left, hclass | harray⟩ := type.exists_chars_eq
      · simp [chars, hclass]
      · simp [chars, harray]
  · rw [RefType.takesWritten.map_iff]
    cases type <;> simp [chars, hbase]
  · rw [RefType.takesWritten.map_iff]
    cases type <;> simp [chars, hbase]
  · next hclass harray =>
    have href (type : RefType) : input ≠ type.chars ++ rest := by
      intro h
      obtain ⟨left, hfirst | hfirst⟩ := type.exists_chars_eq
      · exact hclass (left ++ rest) (by rw [h, hfirst]; rfl)
      · exact harray (left ++ rest) (by rw [h, hfirst]; rfl)
    rw [BaseType.takesWritten.map_iff]
    cases type <;> simp [chars, href]

/-- A written field type does not start like the end of the parameters, or like
a result that is none. -/
theorem exists_chars_eq (type : FieldType) :
    ∃ c left, type.chars = c :: left ∧ c ≠ ')' ∧ c ≠ 'V' := by
  cases type with
  | base element => exact ⟨_, [], rfl, element.letter_ne.2.2⟩
  | ref type =>
    obtain ⟨left, hclass | harray⟩ := type.exists_chars_eq
    · exact ⟨_, left, hclass, by decide, by decide⟩
    · exact ⟨_, left, harray, by decide, by decide⟩

end FieldType

namespace MethodDescriptor

/-- One more parameter. -/
theorem readParameters_cons_eq_ok_iff {c : Char} (hmore : c ≠ ')')
    {left rest : List Char} {parameters : List FieldType} :
    readParameters (c :: left) = (.ok parameters, rest) ↔
      ∃ type more behind, parameters = type :: more ∧
        c :: left = type.chars ++ behind ∧
        readParameters behind = (.ok more, rest) := by
  rw [readParameters]
  case x => exact hmore
  split
  · next fault behind hread =>
    constructor
    · intro h
      cases h
    · intro h
      obtain ⟨type, more, others, -, hinput, -⟩ := h
      rw [hinput, FieldType.takesWritten.read_append] at hread
      cases hread
  · next type behind hread =>
    rw [Taken.map_eq_ok_iff]
    have hinput := (FieldType.takesWritten _ _ _).1 hread
    constructor
    · intro h
      obtain ⟨more, hmore, rfl⟩ := h
      exact ⟨type, more, behind, rfl, hinput, hmore⟩
    · intro h
      obtain ⟨other, more, others, rfl, hother, hmore⟩ := h
      rw [hinput] at hother
      obtain ⟨rfl, rfl⟩ := FieldType.takesWritten.delimits hother
      exact ⟨more, hmore, rfl⟩

/-- Parameters are read up to the closing parenthesis. -/
theorem readParameters_eq_ok_iff (input rest : List Char)
    (parameters : List FieldType) :
    readParameters input = (.ok parameters, rest) ↔
      input = parameters.flatMap FieldType.chars ++ ')' :: rest := by
  induction parameters generalizing input with
  | nil =>
    cases input with
    | nil => simp [readParameters]
    | cons c left =>
      by_cases hclosed : c = ')'
      · subst hclosed
        simp [readParameters]
      · rw [readParameters_cons_eq_ok_iff hclosed]
        simp [hclosed]
  | cons type more ih =>
    cases input with
    | nil => simp [readParameters]
    | cons c left =>
      by_cases hclosed : c = ')'
      · subst hclosed
        obtain ⟨_, _, hchars, hopen, -⟩ := type.exists_chars_eq
        simp [readParameters, hchars, Ne.symm hopen]
      · rw [readParameters_cons_eq_ok_iff hclosed, List.flatMap_cons,
          List.append_assoc]
        constructor
        · intro h
          obtain ⟨_, _, behind, hsame, hinput, hread⟩ := h
          cases hsame
          rw [hinput, (ih behind).1 hread]
        · intro h
          exact ⟨type, more, _, rfl, h, (ih _).2 rfl⟩

theorem readResult_eq_ok_iff {input rest : List Char} {result : Option FieldType} :
    readResult input = (.ok result, rest) ↔
      input = resultChars result ++ rest := by
  unfold readResult
  split
  · next left =>
    cases result with
    | none => simp [resultChars]
    | some type =>
      obtain ⟨c, others, hchars, -, hvoid⟩ := type.exists_chars_eq
      simp [resultChars, hchars, Ne.symm hvoid]
  · next hvoid =>
    rw [FieldType.takesWritten.map_iff]
    cases result with
    | none =>
      have hother : input ≠ 'V' :: rest := fun h => hvoid rest h
      simp [resultChars, hother]
    | some type => simp [resultChars]

theorem takesWritten :
    TakesWritten MethodDescriptor.chars MethodDescriptor.read := by
  intro input descriptor rest
  obtain ⟨parameters, result⟩ := descriptor
  unfold read
  split
  · simp [chars]
  · next left =>
    simp only [chars, List.cons_append, List.append_assoc, List.cons.injEq,
      true_and]
    constructor
    · intro h
      split at h
      · cases h
      · next read behind hread =>
        obtain ⟨read, hresult, hsame⟩ := Taken.map_eq_ok_iff.1 h
        cases hsame
        rw [(readParameters_eq_ok_iff left behind parameters).1 hread,
          readResult_eq_ok_iff.1 hresult]
    · intro h
      have hread := (readParameters_eq_ok_iff left (resultChars result ++ rest)
        parameters).2 (by simpa using h)
      rw [hread]
      exact Taken.map_eq_ok_iff.2 ⟨result, readResult_eq_ok_iff.2 rfl, rfl⟩
  · next c left hother =>
    have hfirst : c ≠ '(' := hother
    simp [chars, hfirst]

end MethodDescriptor

/-- What is read of one kind of descriptor is what is written of it. -/
structure ReadsExactly {α : Type} (chars : α → List Char) (render : α → String)
    (read : List Char → Taken α)
    (ofString : String → Except DescriptorFault α) : Prop where
  /-- Off the front of any input, and with any rest. -/
  takes : ∀ input value rest,
    read input = (.ok value, rest) ↔ input = chars value ++ rest
  /-- A written form shows where it ends. -/
  delimits : ∀ value other rest otherRest,
    chars value ++ rest = chars other ++ otherRest →
      value = other ∧ rest = otherRest
  reads : ∀ text value, ofString text = .ok value ↔ text = render value
  /-- Nothing but written forms is accepted. -/
  accepts : ∀ text,
    (∃ value, ofString text = .ok value) ↔ ∃ value, text = render value

theorem TakesWritten.readsExactly {α : Type} {chars : α → List Char}
    {read : List Char → Taken α} (h : TakesWritten chars read) :
    ReadsExactly chars (fun value => String.ofList (chars value)) read
      (fun text => (read text.toList).whole text) where
  takes := h
  delimits _ _ _ _ := h.delimits
  reads _ _ := h.whole_iff
  accepts _ := exists_congr fun _ => h.whole_iff

/-- **Descriptors are read exactly as they are written**, all five kinds of
them: alone, and in front of anything. -/
theorem reads_exactly :
    ReadsExactly BaseType.chars BaseType.render BaseType.read
      BaseType.ofString ∧
    ReadsExactly BinaryName.descriptorChars BinaryName.renderDescriptor
      BinaryName.readDescriptor BinaryName.ofDescriptor ∧
    ReadsExactly RefType.chars RefType.render RefType.read RefType.ofString ∧
    ReadsExactly FieldType.chars FieldType.render FieldType.read
      FieldType.ofString ∧
    ReadsExactly MethodDescriptor.chars MethodDescriptor.render
      MethodDescriptor.read MethodDescriptor.ofString :=
  ⟨BaseType.takesWritten.readsExactly, BinaryName.takesWritten.readsExactly,
    RefType.takesWritten.readsExactly, FieldType.takesWritten.readsExactly,
    MethodDescriptor.takesWritten.readsExactly⟩

end JvmMethod
