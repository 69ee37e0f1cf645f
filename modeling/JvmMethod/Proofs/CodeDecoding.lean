import JvmMethod.Proofs.InstructionDecoder
import JvmMethod.Proofs.TwoPassAssembly

/-!
# The code decodes to what was pushed

The encoder chooses among several forms of an instruction by the size of its
operands, and leaves out what the machine does not know: the exact kind of a
value, and the order in which the pairs of a lookup switch were given.
`Element.normalized` forgets just that.

* `decodesTo_pieces`: the bytes of an instruction, followed by anything, decode
  to the instruction, normalized.
* `Direct.completes_decodes`: the code of a finished body decodes to the
  instructions that were pushed, normalized, with the offsets of the labels for
  the labels.
-/

namespace JvmMethod

/-- The second list has the targets of the first one in the order of their
keys, and those with the same key in the order in which they were. -/
structure IsStablySorted (targets sorted : List (Int32 × Label)) : Prop where
  perm : sorted.Perm targets
  ordered : sorted.Pairwise fun a b => a.1 ≤ b.1
  stable : ∀ key,
    (sorted.filter fun target => target.1 = key) =
      targets.filter fun target => target.1 = key

theorem isStablySorted_sortedTargets (targets : List (Int32 × Label)) :
    IsStablySorted targets (sortedTargets targets) := by
  have htrans (a b c : Int32 × Label) (hab : decide (a.1 ≤ b.1))
      (hbc : decide (b.1 ≤ c.1)) : decide (a.1 ≤ c.1) := by
    simp only [decide_eq_true_eq, Int32.le_iff_toInt_le] at hab hbc ⊢
    omega
  have htotal (a b : Int32 × Label) : decide (a.1 ≤ b.1) || decide (b.1 ≤ a.1) := by
    simp only [Bool.or_eq_true, decide_eq_true_eq, Int32.le_iff_toInt_le]
    omega
  have hperm : (sortedTargets targets).Perm targets := List.mergeSort_perm ..
  refine ⟨hperm, ?_, ?_⟩
  · have := List.pairwise_mergeSort htrans htotal targets
    simpa [sortedTargets] using this
  · intro key
    -- the targets with one key are in order already, so sorting keeps them
    have hpairwise : (targets.filter fun target => target.1 = key).Pairwise
        fun a b => decide (a.1 ≤ b.1) := by
      refine List.pairwise_of_forall_mem_list ?_
      intro a ha b hb
      have hakey : a.1 = key := by simpa using (List.mem_filter.1 ha).2
      have hbkey : b.1 = key := by simpa using (List.mem_filter.1 hb).2
      simp [hakey, hbkey]
    have hsublist := (List.sublist_mergeSort htrans htotal hpairwise
      List.filter_sublist).filter fun target => target.1 = key
    rw [List.filter_filter] at hsublist
    simp only [Bool.and_self] at hsublist
    exact (hsublist.eq_of_length (hperm.filter _).length_eq.symm).symm

/-- The instruction as the machine knows it. -/
def Element.normalized : Element → Element
  | .load kind slot => .load kind.computational slot
  | .store kind slot => .store kind.computational slot
  | .methodReturn kind => .methodReturn kind.computational
  | .branch (.lookupSwitch default targets) =>
      .branch (.lookupSwitch default
        (targets.mergeSort fun first second => first.1 ≤ second.1))
  | element => element

/-- Normalizing sorts the pairs of a lookup switch, and keeps those with the same key
in order. -/
theorem exists_normalized_lookupSwitch (default : Label)
    (targets : List (Int32 × Label)) :
    ∃ sorted, IsStablySorted targets sorted ∧
      Element.normalized (.branch (.lookupSwitch default targets)) =
        .branch (.lookupSwitch default sorted) :=
  ⟨sortedTargets targets, isStablySorted_sortedTargets targets, rfl⟩

section Formats

variable {kind : Kind} {family : UInt8} {slot : Slot}

theorem format?_operator (operator : Operator) :
    format? operator.opcode = some (.plain (.operator operator)) := by
  cases operator <;> rfl

theorem format?_condition (condition : Condition) :
    format? condition.opcode = some (.test condition) := by
  cases condition with
  | zero comparison | ints comparison | refs comparison | null comparison =>
    cases comparison <;> decide +kernel

theorem format?_methodReturn (kind : Kind) :
    format? (0xac + kind.family?.getD 5) =
      some (.plain (.methodReturn kind.computational)) := by
  cases kind <;> decide +kernel

theorem format?_load (h : kind.family? = some family) :
    format? (0x15 + family) = some (.load kind.computational) := by
  cases kind <;> cases h <;> rfl

theorem format?_store (h : kind.family? = some family) :
    format? (0x36 + family) = some (.store kind.computational) := by
  cases kind <;> cases h <;> rfl

theorem slot_cases (h : slot ≤ 3) : slot = 0 ∨ slot = 1 ∨ slot = 2 ∨ slot = 3 := by
  have hle : slot.toNat ≤ 3 := UInt16.le_iff_toNat_le.1 h
  have hcases : slot.toNat = 0 ∨ slot.toNat = 1 ∨ slot.toNat = 2 ∨
      slot.toNat = 3 := by omega
  simpa [← UInt16.toNat_inj] using hcases

theorem format?_shortLoad (h : kind.family? = some family) (hslot : slot ≤ 3) :
    format? (0x1a + 4 * family + slot.toUInt8) =
      some (.plain (.load kind.computational slot)) := by
  rcases slot_cases hslot with rfl | rfl | rfl | rfl <;>
    cases kind <;> cases h <;> rfl

theorem format?_shortStore (h : kind.family? = some family) (hslot : slot ≤ 3) :
    format? (0x3b + 4 * family + slot.toUInt8) =
      some (.plain (.store kind.computational slot)) := by
  rcases slot_cases hslot with rfl | rfl | rfl | rfl <;>
    cases kind <;> cases h <;> rfl

end Formats

/-- However the code goes on, the bytes of the pieces are read as the element,
and no more than that is read. -/
def DecodesTo (labels : LabelTable) (start : Nat) (pieces : List Piece)
    (element : ElementOf Int) : Prop :=
  ∀ rest : List UInt8,
    decodeInstruction? start
      (pieces.flatMap (Piece.resolved labels start) ++ rest) =
        some (element, rest)

/-- Where a label is in the code, zero if it is nowhere. -/
def LabelTable.offset (labels : LabelTable) (label : Label) : Int :=
  ((labels.position? label).getD 0 : Nat)

theorem LabelTable.start_add_displacement (labels : LabelTable) (start : Nat)
    (label : Label) :
    start + labels.displacement start label = labels.offset label := by
  simp only [displacement, offset]
  omega

section Operands

variable {labels : LabelTable} {start : Nat} {opcode : UInt8} {format : Format}
  {operands rest bytes : List UInt8}

theorem decodeInstruction?_cons (h : format? opcode = some format) :
    decodeInstruction? start (opcode :: operands) =
      format.read? start operands := by
  simp [decodeInstruction?, h]

@[simp] theorem flatMap_resolved_knownBytes :
    (knownBytes bytes).flatMap (Piece.resolved labels start) = bytes := by
  induction bytes with
  | nil => rfl
  | cons byte bytes ih =>
    simp only [knownBytes, List.map_cons, List.flatMap_cons] at ih ⊢
    rw [ih]
    rfl

/-- An instruction that is its opcode and nothing else. -/
theorem decodesTo_plain {element : ElementOf Int}
    (h : format? opcode = some (.plain element)) :
    DecodesTo labels start [.byte opcode] element := by
  intro rest
  exact decodeInstruction?_cons h

theorem toUInt16_toUInt8 {slot : Slot} (h : slot ≤ 255) :
    slot.toUInt8.toUInt16 = slot := by
  have hle : slot.toNat ≤ 255 := UInt16.le_iff_toNat_le.1 h
  apply UInt16.toNat_inj.1
  simp only [UInt8.toNat_toUInt16, UInt16.toNat_toUInt8]
  omega

theorem toInt16_toInt8 {value : Int16} (hlow : -128 ≤ value)
    (hhigh : value ≤ 127) : value.toInt8.toUInt8.toInt8.toInt16 = value := by
  have hl : -128 ≤ value.toInt := Int16.le_iff_toInt_le.1 hlow
  have hh : value.toInt ≤ 127 := Int16.le_iff_toInt_le.1 hhigh
  apply Int16.toInt_inj.1
  rw [Int8.toInt8_toUInt8, Int8.toInt_toInt16, Int16.toInt_toInt8,
    Int.bmod_eq_of_le (by omega) (by omega)]

/-- A load or store in each of its three forms. -/
theorem decodesTo_localPieces {short normal : UInt8} {slot : Slot}
    {element : ElementOf Int}
    (hshort : slot ≤ 3 → format? (short + slot.toUInt8) = some (.plain element))
    (hnormal : ∃ format, format? normal = some format ∧
      (∀ byte rest, byte.toUInt16 = slot →
        format.read? start (byte :: rest) = some (element, rest)) ∧
      ∀ rest, readWide? (normal :: (bytes16 slot ++ rest)) = some (element, rest)) :
    DecodesTo labels start (localPieces short normal slot) element := by
  obtain ⟨format, hformat, hbyte, hwide⟩ := hnormal
  intro rest
  unfold localPieces
  split
  · next hslot => exact decodeInstruction?_cons (hshort hslot)
  split
  · next hslot =>
    refine (decodeInstruction?_cons hformat).trans ?_
    exact hbyte _ _ (toUInt16_toUInt8 hslot)
  · rw [flatMap_resolved_knownBytes]
    have hopcode : format? wideOpcode = some .wide := by decide
    exact (decodeInstruction?_cons hopcode).trans (hwide rest)

theorem decodesTo_load {kind : Kind} {family : UInt8} (slot : Slot)
    (h : kind.family? = some family) :
    DecodesTo labels start
      (localPieces (0x1a + 4 * family) (0x15 + family) slot)
      (.load kind.computational slot) := by
  refine decodesTo_localPieces (format?_shortLoad h) ⟨_, format?_load h, ?_, ?_⟩
  · intro byte rest hbyte
    obtain rfl := hbyte
    rfl
  · intro rest
    simp [readWide?, format?_load h]

theorem decodesTo_store {kind : Kind} {family : UInt8} (slot : Slot)
    (h : kind.family? = some family) :
    DecodesTo labels start
      (localPieces (0x3b + 4 * family) (0x36 + family) slot)
      (.store kind.computational slot) := by
  refine decodesTo_localPieces (format?_shortStore h) ⟨_, format?_store h, ?_, ?_⟩
  · intro byte rest hbyte
    obtain rfl := hbyte
    rfl
  · intro rest
    simp [readWide?, format?_store h]

theorem decodesTo_increment (slot : Slot) (amount : Int16) :
    DecodesTo labels start (incrementPieces slot amount)
      (.increment slot amount) := by
  intro rest
  unfold incrementPieces
  have hopcode : format? 0x84 = some .increment := rfl
  split
  · next hfits =>
    obtain ⟨hslot, hlow, hhigh⟩ := hfits
    rw [flatMap_resolved_knownBytes]
    refine (decodeInstruction?_cons hopcode).trans ?_
    change some (ElementOf.increment slot.toUInt8.toUInt16
      amount.toInt8.toUInt8.toInt8.toInt16, rest) = _
    rw [toUInt16_toUInt8 hslot, toInt16_toInt8 hlow hhigh]
  · rw [flatMap_resolved_knownBytes]
    have hwide : format? wideOpcode = some .wide := by decide
    refine (decodeInstruction?_cons hwide).trans ?_
    simp [Format.read?, readWide?, hopcode]

/-- The integers that are part of an opcode. -/
theorem format?_shortConstant {value : Int16} (hlow : -1 ≤ value)
    (hhigh : value ≤ 5) :
    format? (value + 3).toInt8.toUInt8 =
      some (.plain (.constant (.int value))) := by
  have hl : -1 ≤ value.toInt := Int16.le_iff_toInt_le.1 hlow
  have hh : value.toInt ≤ 5 := Int16.le_iff_toInt_le.1 hhigh
  have hcases : value.toInt = -1 ∨ value.toInt = 0 ∨ value.toInt = 1 ∨
      value.toInt = 2 ∨ value.toInt = 3 ∨ value.toInt = 4 ∨ value.toInt = 5 := by
    omega
  have hvalue : value = -1 ∨ value = 0 ∨ value = 1 ∨ value = 2 ∨ value = 3 ∨
      value = 4 ∨ value = 5 := by
    simpa [← Int16.toInt_inj] using hcases
  rcases hvalue with rfl | rfl | rfl | rfl | rfl | rfl | rfl <;> rfl

theorem decodesTo_constant (value : Constant) :
    DecodesTo labels start value.pieces (.constant value) := by
  cases value with
  | int value =>
    simp only [Constant.pieces]
    split
    · next hshort => exact decodesTo_plain (format?_shortConstant hshort.1 hshort.2)
    split
    · next hbyte =>
      intro rest
      have hopcode : format? 0x10 = some .byteConstant := by decide
      refine (decodeInstruction?_cons hopcode).trans ?_
      change some (ElementOf.constant
        (.int value.toInt8.toUInt8.toInt8.toInt16), rest) = _
      rw [toInt16_toInt8 hbyte.1 hbyte.2]
    · intro rest
      rw [flatMap_resolved_knownBytes]
      have hopcode : format? 0x11 = some .shortConstant := by decide
      refine (decodeInstruction?_cons hopcode).trans ?_
      simp [Format.read?]
  | _ => exact decodesTo_plain rfl

end Operands

section Branches

variable {labels : LabelTable} {start : Nat} {rest : List UInt8}
  {label : Label}

theorem readNear?_resolved
    (hfits : fitsInt16 (labels.displacement start label) = true) :
    readNear? start (offsetBytes16 (labels.displacement start label) ++ rest) =
      some (labels.offset label, rest) := by
  obtain ⟨word, hread, hword⟩ := readInt16?_offsetBytes16 rest hfits
  simp only [readNear?, hread, Option.map_some, hword,
    labels.start_add_displacement]

variable (hstart : start ≤ 65535) (hwithin : labels.WithinCode)

include hstart hwithin

theorem readFar?_resolved (label : Label) :
    readFar? start (offsetBytes32 (labels.displacement start label) ++ rest) =
      some (labels.offset label, rest) := by
  have hoffset : (labels.position? label).getD 0 ≤ 65535 := by
    cases hplace : labels.position? label with
    | none => simp
    | some target => simpa using hwithin label target hplace
  have hlow : -65535 ≤ labels.displacement start label := by
    simp only [LabelTable.displacement]
    omega
  have hhigh : labels.displacement start label ≤ 65535 := by
    simp only [LabelTable.displacement]
    omega
  obtain ⟨word, hread, hword⟩ := readInt32?_offsetBytes32 rest hlow hhigh
  simp only [readFar?, hread, Option.map_some, hword,
    labels.start_add_displacement]

theorem readTargets?_resolved (rest : List UInt8) (targets : List Label) :
    readTargets? start targets.length
      ((targets.map Piece.far).flatMap (Piece.resolved labels start) ++ rest) =
        some (targets.map labels.offset, rest) := by
  induction targets with
  | nil => rfl
  | cons target targets ih =>
    simp only [List.map_cons, List.flatMap_cons, List.length_cons, readTargets?,
      Piece.resolved, List.append_assoc, readFar?_resolved hstart hwithin]
    simp [ih]

theorem readPairs?_resolved (rest : List UInt8)
    (targets : List (Int32 × Label)) :
    readPairs? start targets.length
      ((targets.flatMap fun (key, target) =>
        wordPieces key ++ [.far target]).flatMap (Piece.resolved labels start) ++
          rest) =
        some (targets.map fun (key, target) => (key, labels.offset target),
          rest) := by
  induction targets with
  | nil => rfl
  | cons target targets ih =>
    simp only [List.map_cons, List.flatMap_cons, List.length_cons, readPairs?,
      List.flatMap_append, wordPieces, flatMap_resolved_knownBytes,
      List.append_assoc, readInt32?_bytes32, List.flatMap_nil, Piece.resolved,
      List.nil_append]
    simp only [Option.bind_eq_bind, Option.bind_some,
      readFar?_resolved hstart hwithin]
    simp only [wordPieces] at ih
    simp [ih]

omit hstart hwithin in
/-- The operands of a switch are behind its padding. -/
theorem skipPadding_resolved :
    skipPadding start
      ((switchPadding start).flatMap (Piece.resolved labels start) ++ rest) =
        rest := by
  have hlength : ((switchPadding start).flatMap
      (Piece.resolved labels start)).length = 3 - start % 4 := by
    rw [length_flatMap_resolved]
    exact piecesSize_switchPadding start
  exact List.drop_left' hlength

theorem decodesTo_tableSwitch (default : Label) {low high : Int32}
    {targets : List Label} (hhigh : tableHigh? low targets.length = some high) :
    DecodesTo labels start
      (.byte 0xaa :: switchPadding start ++ .far default ::
        wordPieces low ++ wordPieces high ++ targets.map .far)
      (.branch (.tableSwitch (labels.offset default) low
        (targets.map labels.offset))) := by
  intro rest
  have hopcode : format? 0xaa = some .tableSwitch := rfl
  obtain ⟨hsome, hlast⟩ := tableHigh?_toInt hhigh
  have hordered : ¬ high < low := by
    rw [Int32.lt_iff_toInt_lt]
    omega
  have hcount : (high.toInt - low.toInt + 1).toNat = targets.length := by
    omega
  -- the bytes, operand by operand
  have hbytes : (Piece.byte 0xaa :: switchPadding start ++ Piece.far default ::
      wordPieces low ++ wordPieces high ++ targets.map Piece.far).flatMap
        (Piece.resolved labels start) ++ rest =
      0xaa :: ((switchPadding start).flatMap (Piece.resolved labels start) ++
        (offsetBytes32 (labels.displacement start default) ++
          (bytes32 low.toUInt32 ++ (bytes32 high.toUInt32 ++
            ((targets.map Piece.far).flatMap (Piece.resolved labels start) ++
              rest))))) := by
    simp [wordPieces, Piece.resolved]
  have htargets := readTargets?_resolved hstart hwithin rest targets
  rw [hbytes, decodeInstruction?_cons hopcode]
  simp [Format.read?, readTableSwitch?, skipPadding_resolved,
    readFar?_resolved hstart hwithin, hordered, hcount, htargets]

theorem decodesTo_lookupSwitch (default : Label)
    {targets : List (Int32 × Label)} (hcount : targets.length < 2147483648) :
    DecodesTo labels start
      (.byte 0xab :: switchPadding start ++ .far default ::
        wordPieces (Int32.ofNat targets.length) ++
        targets.flatMap fun (key, target) => wordPieces key ++ [.far target])
      (.branch (.lookupSwitch (labels.offset default)
        (targets.map fun (key, target) => (key, labels.offset target)))) := by
  intro rest
  have hopcode : format? 0xab = some .lookupSwitch := rfl
  have hword : (Int32.ofNat targets.length).toInt = targets.length :=
    Int32.toInt_ofNat_of_lt (by omega)
  have hnatural : ¬ Int32.ofNat targets.length < 0 := by
    rw [Int32.lt_iff_toInt_lt, hword, Int32.toInt_zero]
    omega
  have hbytes : (Piece.byte 0xab :: switchPadding start ++ .far default ::
      wordPieces (Int32.ofNat targets.length) ++
        targets.flatMap fun (key, target) =>
          wordPieces key ++ [.far target]).flatMap
        (Piece.resolved labels start) ++ rest =
      0xab :: ((switchPadding start).flatMap (Piece.resolved labels start) ++
        (offsetBytes32 (labels.displacement start default) ++
          (bytes32 (Int32.ofNat targets.length).toUInt32 ++
            ((targets.flatMap fun (key, target) =>
              wordPieces key ++ [.far target]).flatMap
                (Piece.resolved labels start) ++ rest)))) := by
    rw [List.flatMap_append]
    simp [wordPieces, Piece.resolved]
  have hpairs := readPairs?_resolved hstart hwithin rest targets
  rw [hbytes, decodeInstruction?_cons hopcode]
  simp only [Format.read?, readLookupSwitch?, skipPadding_resolved,
    readFar?_resolved hstart hwithin, readInt32?_bytes32, Option.bind_eq_bind,
    Option.bind_some, hnatural, if_false, hword, Int.toNat_natCast, hpairs,
    Option.pure_def, Option.map_some]

end Branches

/-- Replacing all members of a list succeeds if every replacement does. -/
theorem mapM_eq_some_map {α β : Type} {f : α → Option β} {g : α → β}
    (list : List α) (h : ∀ a ∈ list, f a = some (g a)) :
    list.mapM f = some (list.map g) := by
  induction list with
  | nil => rfl
  | cons first list ih =>
    have hrest := ih fun a ha => h a (List.mem_cons_of_mem _ ha)
    rw [List.mapM_cons, h first List.mem_cons_self, hrest]
    rfl

section Instructions

variable {labels : LabelTable} {start : Nat} {pieces : List Piece}
  {place? : Label → Option Int}
  (hstart : start ≤ 65535) (hwithin : labels.WithinCode)
  (hplace : ∀ label target, labels.position? label = some target →
    place? label = some (target : Int))

include hstart hwithin hplace

theorem decodesTo_branch {branch : Branch Label}
    (hpieces : branch.pieces start = .ok pieces)
    (hsize : branch.size start ≤ 65535)
    (hresolvable : ∀ piece ∈ pieces, piece.IsResolvable labels start) :
    ∃ decoded, (Element.normalized (.branch branch)).mapM place? = some decoded ∧
      DecodesTo labels start pieces decoded := by
  have hnear (label : Label) (hmem : Piece.near label ∈ pieces) :
      place? label = some (labels.offset label) ∧
        fitsInt16 (labels.displacement start label) = true := by
    obtain ⟨target, htarget, hfits⟩ := hresolvable _ hmem
    rw [hplace label target htarget]
    simpa [LabelTable.offset, LabelTable.displacement, htarget] using hfits
  have hfar (label : Label) (hmem : Piece.far label ∈ pieces) :
      place? label = some (labels.offset label) := by
    obtain ⟨target, htarget⟩ := hresolvable _ hmem
    rw [hplace label target htarget]
    simp [LabelTable.offset, htarget]
  cases branch with
  | test condition target =>
    cases hpieces
    obtain ⟨htarget, hfits⟩ := hnear target (by simp)
    refine ⟨.branch (.test condition (labels.offset target)), ?_, ?_⟩
    · simp [Element.normalized, ElementOf.mapM, Branch.mapM, htarget]
    · intro rest
      refine (decodeInstruction?_cons (format?_condition condition)).trans ?_
      simp [Piece.resolved, Format.read?, readNear?_resolved hfits]
  | goto target =>
    cases hpieces
    obtain ⟨htarget, hfits⟩ := hnear target (by simp)
    refine ⟨.branch (.goto (labels.offset target)), ?_, ?_⟩
    · simp [Element.normalized, ElementOf.mapM, Branch.mapM, htarget]
    · intro rest
      have hopcode : format? 0xa7 = some .goto := rfl
      refine (decodeInstruction?_cons hopcode).trans ?_
      simp [Piece.resolved, Format.read?, readNear?_resolved hfits]
  | tableSwitch default low targets =>
    simp only [Branch.pieces] at hpieces
    split at hpieces
    · cases hpieces
    next high hhigh =>
    cases hpieces
    refine ⟨_, ?_, decodesTo_tableSwitch hstart hwithin default hhigh⟩
    have hdefault := hfar default (by simp)
    have htargets := mapM_eq_some_map targets fun target hmem =>
      hfar target (by simp [hmem])
    simp [Element.normalized, ElementOf.mapM, Branch.mapM, hdefault, htargets]
  | lookupSwitch default targets =>
    cases hpieces
    have hlength : (sortedTargets targets).length = targets.length :=
      List.length_mergeSort _
    simp only [Branch.size] at hsize
    rw [← hlength] at hfar hresolvable ⊢
    refine ⟨_, ?_, decodesTo_lookupSwitch hstart hwithin default (by omega)⟩
    have hdefault := hfar default (by simp)
    have htargets : (sortedTargets targets).mapM
        (fun (key, target) => do return (key, ← place? target)) =
          some ((sortedTargets targets).map fun (key, target) =>
            (key, labels.offset target)) := by
      refine mapM_eq_some_map _ ?_
      intro pair hmem
      obtain ⟨key, target⟩ := pair
      have htarget := hfar target (by
        simp only [List.mem_append, List.mem_flatMap]
        exact .inr ⟨(key, target), hmem, by simp⟩)
      simp [htarget]
    have hnormalized : Element.normalized (.branch (.lookupSwitch default targets)) =
        .branch (.lookupSwitch default (sortedTargets targets)) := rfl
    simp only [hnormalized, ElementOf.mapM, Branch.mapM, hdefault,
      Option.bind_eq_bind, Option.bind_some] at htargets ⊢
    rw [htargets]
    rfl

/-- **The bytes of an instruction decode to the instruction**, normalized and
with offsets for labels. -/
theorem decodesTo_pieces {element : Element}
    (hinstruction : element.isPseudo = false)
    (hpieces : element.pieces start = .ok pieces)
    (hsize : element.size start ≤ 65535)
    (hresolvable : ∀ piece ∈ pieces, piece.IsResolvable labels start) :
    ∃ decoded, element.normalized.mapM place? = some decoded ∧
      DecodesTo labels start pieces decoded := by
  cases element with
  | load kind slot =>
    simp only [Element.pieces] at hpieces
    split at hpieces
    · cases hpieces
    next family hfamily =>
    cases hpieces
    exact ⟨_, rfl, decodesTo_load slot hfamily⟩
  | store kind slot =>
    simp only [Element.pieces] at hpieces
    split at hpieces
    · cases hpieces
    next family hfamily =>
    cases hpieces
    exact ⟨_, rfl, decodesTo_store slot hfamily⟩
  | increment slot amount =>
    cases hpieces
    exact ⟨_, rfl, decodesTo_increment slot amount⟩
  | constant value =>
    cases hpieces
    exact ⟨_, rfl, decodesTo_constant value⟩
  | operator operator =>
    cases hpieces
    exact ⟨_, rfl, decodesTo_plain (format?_operator operator)⟩
  | branch branch =>
    exact decodesTo_branch hstart hwithin hplace hpieces hsize hresolvable
  | methodReturn kind =>
    cases hpieces
    exact ⟨_, rfl, decodesTo_plain (format?_methodReturn kind)⟩
  | athrow =>
    cases hpieces
    exact ⟨_, rfl, decodesTo_plain rfl⟩
  | label _ | line _ | handler _ | localVariable _ | localVariableType _ =>
    cases hinstruction

end Instructions

/-- The code of elements decodes to their instructions. -/
theorem decodeCode?_placedBytes {labels : LabelTable} {start : Nat}
    {elements : List Element} {place? : Label → Option Int}
    (hwithin : labels.WithinCode)
    (hplace : ∀ label target, labels.position? label = some target →
      place? label = some (target : Int))
    (hend : endOffset start elements ≤ 65535)
    (hencodable : ∀ offset element, (offset, element) ∈ layout start elements →
      ∃ pieces, element.pieces offset = .ok pieces)
    (hresolvable : ∀ offset piece, (offset, piece) ∈ placedPieces start elements →
      piece.IsResolvable labels offset) :
    ∃ decoded,
      (elements.filter fun element => !element.isPseudo).mapM
          (fun element => element.normalized.mapM place?) = some decoded ∧
        decodeCode? start (placedBytes labels (placedPieces start elements)) =
          some decoded := by
  induction elements generalizing start with
  | nil => exact ⟨[], rfl, decodeCode?_nil start⟩
  | cons element elements ih =>
    obtain ⟨pieces, hpieces⟩ := hencodable start element List.mem_cons_self
    have hat := Element.piecesAt_eq hpieces
    have hlength := pieces_size hpieces
    obtain ⟨decoded, hmap, hrest⟩ := ih hend
      (fun offset other hmem => hencodable offset other (List.mem_cons_of_mem _ hmem))
      (fun offset piece hmem => hresolvable offset piece
        (List.mem_append_right _ hmem))
    simp only [placedPieces, hat, placedBytes_append, placedBytes_map]
    cases hpseudo : element.isPseudo with
    | true =>
      have hnone := Direct.pieces_of_isPseudo start hpseudo
      rw [hpieces] at hnone
      cases hnone
      have hsize : element.size start = 0 := hlength.symm
      rw [hsize] at hrest ⊢
      refine ⟨decoded, ?_, hrest⟩
      simpa [hpseudo] using hmap
    | false =>
      have hle := le_endOffset (start + element.size start) elements
      have hall : start + element.size start ≤ 65535 := Nat.le_trans hle hend
      have hstart : start ≤ 65535 := by omega
      have hsize : element.size start ≤ 65535 := by omega
      obtain ⟨instruction, hinstruction, hdecodes⟩ :=
        decodesTo_pieces hstart hwithin hplace hpseudo hpieces hsize
          fun piece hpiece => hresolvable start piece
            (mem_placedPieces.2 ⟨element, List.mem_cons_self, by rwa [hat]⟩)
      refine ⟨instruction :: decoded, ?_, ?_⟩
      · simp [hpseudo, hinstruction, hmap]
      · rw [decodeCode?_append (hdecodes _), length_flatMap_resolved, hlength,
          hrest]
        rfl

/-- **The code decodes to what was pushed.**  If no push of a run fails and
finishing gives a body, then reading its code from the start to the end gives
the instructions that were pushed, normalized, with the offset that the body has
for a label in the place of the label.  The pairs of a lookup switch are stably sorted
then. -/
theorem Direct.completes_decodes {initial : Slot} {operations : List Operation}
    {outcomes : List Outcome} {body : MethodBody}
    (h : Completes initial operations outcomes body) :
    (∃ decoded,
      ((pushedElements operations).filter fun element => !element.isPseudo).mapM
          (fun element => element.normalized.mapM fun label =>
            (body.labelOffset? label).map fun offset => (offset.toNat : Int)) =
        some decoded ∧
      decodeCode? 0 body.code.toList = some decoded) ∧
    ∀ default targets, ∃ sorted, IsStablySorted targets sorted ∧
      Element.normalized (.branch (.lookupSwitch default targets)) =
        .branch (.lookupSwitch default sorted) := by
  refine ⟨?_, exists_normalized_lookupSwitch⟩
  obtain ⟨rfl, hno, hf⟩ := h
  have hencodes := (Encodes.start initial).run hno
  rw [List.nil_append] at hencodes
  have hassembly := hencodes.isTwoPassAssembly hf
  rw [hencodes.code_eq hf]
  refine decodeCode?_placedBytes (hencodes.withinCode hf) ?_
    (hencodes.endOffset_le hf) hencodes.encodable
    (fun offset piece => hencodes.resolvable hf)
  intro label target htarget
  have hoffset := hassembly.labelOffset? label
  rw [← hencodes.position?, htarget, Option.map_eq_some_iff] at hoffset
  obtain ⟨offset, hsome, rfl⟩ := hoffset
  rw [hsome, Option.map_some]

theorem Direct.loopRun_decodes :
    Completes 1 loopRun loopOutcomes loopBody ∧
      ∃ decoded,
        ((pushedElements loopRun).filter fun element => !element.isPseudo).mapM
            (fun element => element.normalized.mapM fun label =>
              (loopBody.labelOffset? label).map fun offset =>
                (offset.toNat : Int)) = some decoded ∧
        decodeCode? 0 loopBody.code.toList = some decoded :=
  ⟨completes_loopRun, (completes_decodes completes_loopRun).1⟩

end JvmMethod
