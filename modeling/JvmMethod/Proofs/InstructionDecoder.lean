import JvmMethod.Element
import JvmMethod.Proofs.WordReading

/-!
# Reading code back

A decoder for the instructions that a method body may have, from the instruction
formats alone: the opcode tells the format, and the format what the bytes behind
the opcode mean.  Targets become offsets into the code, counted from its start,
and so they are numbers here, not labels.

A decoder has to know where an instruction starts, for two reasons: the offset
of a target counts from there, and the operands of a switch are aligned.

`decodeInstruction?` reads one instruction and gives what is left, and
`decodeCode?` reads code up to its end, or fails.
-/

namespace JvmMethod

/-- The kind at a place in the order that the typed opcodes share. -/
def Kind.ofFamily? : Nat → Option Kind
  | 0 => some .int
  | 1 => some .long
  | 2 => some .float
  | 3 => some .double
  | 4 => some .reference
  | _ => none

/-- The comparison at a place in the order of the opcodes. -/
def OrdComparison.ofRank? : Nat → Option OrdComparison
  | 0 => some .eq
  | 1 => some .ne
  | 2 => some .lt
  | 3 => some .ge
  | 4 => some .gt
  | 5 => some .le
  | _ => none

/-- The constant that is part of an opcode. -/
def Constant.ofOpcode? : Nat → Option Constant
  | 0x01 => some .null
  | 0x02 => some (.int (-1))
  | 0x03 => some (.int 0)
  | 0x04 => some (.int 1)
  | 0x05 => some (.int 2)
  | 0x06 => some (.int 3)
  | 0x07 => some (.int 4)
  | 0x08 => some (.int 5)
  | 0x09 => some .long0
  | 0x0a => some .long1
  | 0x0b => some .float0
  | 0x0c => some .float1
  | 0x0d => some .float2
  | 0x0e => some .double0
  | 0x0f => some .double1
  | _ => none

/-- The operator with an opcode: operators have six ranges of opcodes. -/
def Operator.ofOpcode? (opcode : Nat) : Option Operator :=
  if opcode = 0x00 then some .nop
  else if 0x2e ≤ opcode ∧ opcode ≤ 0x35 then all[opcode - 0x2d]?
  else if 0x4f ≤ opcode ∧ opcode ≤ 0x83 then all[opcode - 0x46]?
  else if 0x85 ≤ opcode ∧ opcode ≤ 0x98 then all[opcode - 0x47]?
  else if opcode = 0xbe then some .arraylength
  else if opcode = 0xc2 then some .monitorenter
  else if opcode = 0xc3 then some .monitorexit
  else none

/-- What the bytes behind an opcode mean. -/
inductive Format where
  /-- There are none: the opcode says it all. -/
  | plain (element : ElementOf Int)
  /-- The slot. -/
  | load (kind : Kind)
  /-- The slot. -/
  | store (kind : Kind)
  /-- The slot and the amount. -/
  | increment
  /-- A constant of one byte. -/
  | byteConstant
  /-- A constant of two bytes. -/
  | shortConstant
  /-- The offset of the target. -/
  | test (condition : Condition)
  /-- The offset of the target. -/
  | goto
  /-- Padding, the default, the lowest and the highest key, and the targets. -/
  | tableSwitch
  /-- Padding, the default, how many pairs there are, and the pairs. -/
  | lookupSwitch
  /-- Another opcode, with operands of twice the size. -/
  | wide
  deriving DecidableEq

/-- The format of the instructions with an opcode. -/
def format? (opcode : UInt8) : Option Format :=
  let code := opcode.toNat
  if code = 0x10 then some .byteConstant
  else if code = 0x11 then some .shortConstant
  else if 0x15 ≤ code ∧ code ≤ 0x19 then
    (Kind.ofFamily? (code - 0x15)).map .load
  else if 0x1a ≤ code ∧ code ≤ 0x2d then
    (Kind.ofFamily? ((code - 0x1a) / 4)).map fun kind =>
      .plain (.load kind (UInt16.ofNat ((code - 0x1a) % 4)))
  else if 0x36 ≤ code ∧ code ≤ 0x3a then
    (Kind.ofFamily? (code - 0x36)).map .store
  else if 0x3b ≤ code ∧ code ≤ 0x4e then
    (Kind.ofFamily? ((code - 0x3b) / 4)).map fun kind =>
      .plain (.store kind (UInt16.ofNat ((code - 0x3b) % 4)))
  else if code = 0x84 then some .increment
  else if 0x99 ≤ code ∧ code ≤ 0x9e then
    (OrdComparison.ofRank? (code - 0x99)).map fun comparison =>
      .test (.zero comparison)
  else if 0x9f ≤ code ∧ code ≤ 0xa4 then
    (OrdComparison.ofRank? (code - 0x9f)).map fun comparison =>
      .test (.ints comparison)
  else if code = 0xa5 then some (.test (.refs .eq))
  else if code = 0xa6 then some (.test (.refs .ne))
  else if code = 0xa7 then some .goto
  else if code = 0xaa then some .tableSwitch
  else if code = 0xab then some .lookupSwitch
  else if 0xac ≤ code ∧ code ≤ 0xb0 then
    (Kind.ofFamily? (code - 0xac)).map fun kind => .plain (.methodReturn kind)
  else if code = 0xb1 then some (.plain (.methodReturn .void))
  else if code = 0xbf then some (.plain .athrow)
  else if code = 0xc4 then some .wide
  else if code = 0xc6 then some (.test (.null .eq))
  else if code = 0xc7 then some (.test (.null .ne))
  else
    ((Constant.ofOpcode? code).map fun value => .plain (.constant value)).or
      ((Operator.ofOpcode? code).map fun operator => .plain (.operator operator))

/-- Reads the offset of a target in two bytes. -/
def readNear? (start : Nat) (bytes : List UInt8) : Option (Int × List UInt8) :=
  (readInt16? bytes).map fun (offset, rest) => (start + offset.toInt, rest)

/-- Reads the offset of a target in four bytes. -/
def readFar? (start : Nat) (bytes : List UInt8) : Option (Int × List UInt8) :=
  (readInt32? bytes).map fun (offset, rest) => (start + offset.toInt, rest)

/-- Reads the targets of a table switch. -/
def readTargets? (start : Nat) :
    Nat → List UInt8 → Option (List Int × List UInt8)
  | 0, bytes => some ([], bytes)
  | count + 1, bytes => do
      let (target, bytes) ← readFar? start bytes
      let (targets, bytes) ← readTargets? start count bytes
      return (target :: targets, bytes)

/-- Reads the keys and targets of a lookup switch. -/
def readPairs? (start : Nat) :
    Nat → List UInt8 → Option (List (Int32 × Int) × List UInt8)
  | 0, bytes => some ([], bytes)
  | count + 1, bytes => do
      let (key, bytes) ← readInt32? bytes
      let (target, bytes) ← readFar? start bytes
      let (pairs, bytes) ← readPairs? start count bytes
      return ((key, target) :: pairs, bytes)

/-- Skips the padding behind the opcode of a switch: the operands are at the
next multiple of four. -/
def skipPadding (start : Nat) (bytes : List UInt8) : List UInt8 :=
  bytes.drop (3 - start % 4)

/-- Reads the operands of a table switch. -/
def readTableSwitch? (start : Nat) (bytes : List UInt8) :
    Option (Branch Int × List UInt8) := do
  let (default, bytes) ← readFar? start (skipPadding start bytes)
  let (low, bytes) ← readInt32? bytes
  let (high, bytes) ← readInt32? bytes
  if high < low then none
  else
    let count := (high.toInt - low.toInt + 1).toNat
    let (targets, bytes) ← readTargets? start count bytes
    return (.tableSwitch default low targets, bytes)

/-- Reads the operands of a lookup switch. -/
def readLookupSwitch? (start : Nat) (bytes : List UInt8) :
    Option (Branch Int × List UInt8) := do
  let (default, bytes) ← readFar? start (skipPadding start bytes)
  let (count, bytes) ← readInt32? bytes
  if count < 0 then none
  else
    let (pairs, bytes) ← readPairs? start count.toInt.toNat bytes
    return (.lookupSwitch default pairs, bytes)

/-- Reads the operands of an instruction that is widened. -/
def readWide? : List UInt8 → Option (ElementOf Int × List UInt8)
  | [] => none
  | opcode :: bytes =>
      match format? opcode with
      | some (.load kind) =>
          (readUInt16? bytes).map fun (slot, rest) => (.load kind slot, rest)
      | some (.store kind) =>
          (readUInt16? bytes).map fun (slot, rest) => (.store kind slot, rest)
      | some .increment => do
          let (slot, bytes) ← readUInt16? bytes
          let (amount, bytes) ← readInt16? bytes
          return (.increment slot amount, bytes)
      | _ => none

/-- Reads the operands of the instruction at `start`. -/
def Format.read? (start : Nat) :
    Format → List UInt8 → Option (ElementOf Int × List UInt8)
  | .plain element, bytes => some (element, bytes)
  | .load kind, slot :: bytes => some (.load kind slot.toUInt16, bytes)
  | .store kind, slot :: bytes => some (.store kind slot.toUInt16, bytes)
  | .increment, slot :: amount :: bytes =>
      some (.increment slot.toUInt16 amount.toInt8.toInt16, bytes)
  | .byteConstant, value :: bytes =>
      some (.constant (.int value.toInt8.toInt16), bytes)
  | .shortConstant, bytes =>
      (readInt16? bytes).map fun (value, rest) => (.constant (.int value), rest)
  | .test condition, bytes =>
      (readNear? start bytes).map fun (target, rest) =>
        (.branch (.test condition target), rest)
  | .goto, bytes =>
      (readNear? start bytes).map fun (target, rest) =>
        (.branch (.goto target), rest)
  | .tableSwitch, bytes =>
      (readTableSwitch? start bytes).map fun (branch, rest) =>
        (.branch branch, rest)
  | .lookupSwitch, bytes =>
      (readLookupSwitch? start bytes).map fun (branch, rest) =>
        (.branch branch, rest)
  | .wide, bytes => readWide? bytes
  | _, [] => none
  | .increment, [_] => none

/-- Reads the instruction at `start`, and gives what is behind it. -/
def decodeInstruction? (start : Nat) :
    List UInt8 → Option (ElementOf Int × List UInt8)
  | [] => none
  | opcode :: operands => do (← format? opcode).read? start operands

section Progress

variable {start count : Nat} {bytes rest : List UInt8}

theorem length_le_of_readUInt16? {word : UInt16}
    (h : readUInt16? bytes = some (word, rest)) : rest.length ≤ bytes.length := by
  match bytes, h with
  | _ :: _ :: _, h =>
    cases h
    simp only [List.length_cons]
    omega

theorem length_le_of_readInt16? {word : Int16}
    (h : readInt16? bytes = some (word, rest)) : rest.length ≤ bytes.length := by
  obtain ⟨⟨_, _⟩, hread, hrest⟩ := Option.map_eq_some_iff.1 h
  cases hrest
  exact length_le_of_readUInt16? hread

theorem length_le_of_readInt32? {word : Int32}
    (h : readInt32? bytes = some (word, rest)) : rest.length ≤ bytes.length := by
  match bytes, h with
  | _ :: _ :: _ :: _ :: _, h =>
    cases h
    simp only [List.length_cons]
    omega

theorem length_le_of_readNear? {target : Int}
    (h : readNear? start bytes = some (target, rest)) :
    rest.length ≤ bytes.length := by
  obtain ⟨⟨_, _⟩, hread, hrest⟩ := Option.map_eq_some_iff.1 h
  cases hrest
  exact length_le_of_readInt16? hread

theorem length_le_of_readFar? {target : Int}
    (h : readFar? start bytes = some (target, rest)) :
    rest.length ≤ bytes.length := by
  obtain ⟨⟨_, _⟩, hread, hrest⟩ := Option.map_eq_some_iff.1 h
  cases hrest
  exact length_le_of_readInt32? hread

theorem length_le_of_readTargets? {targets : List Int}
    (h : readTargets? start count bytes = some (targets, rest)) :
    rest.length ≤ bytes.length := by
  induction count generalizing bytes targets with
  | zero =>
    cases h
    exact Nat.le_refl _
  | succ count ih =>
    simp only [readTargets?, Option.bind_eq_bind, Option.bind_eq_some_iff,
      Prod.exists] at h
    obtain ⟨_, _, hfar, _, _, hmore, hdone⟩ := h
    cases hdone
    exact Nat.le_trans (ih hmore) (length_le_of_readFar? hfar)

theorem length_le_of_readPairs? {pairs : List (Int32 × Int)}
    (h : readPairs? start count bytes = some (pairs, rest)) :
    rest.length ≤ bytes.length := by
  induction count generalizing bytes pairs with
  | zero =>
    cases h
    exact Nat.le_refl _
  | succ count ih =>
    simp only [readPairs?, Option.bind_eq_bind, Option.bind_eq_some_iff,
      Prod.exists] at h
    obtain ⟨_, _, hkey, _, _, hfar, _, _, hmore, hdone⟩ := h
    cases hdone
    exact Nat.le_trans (Nat.le_trans (ih hmore) (length_le_of_readFar? hfar))
      (length_le_of_readInt32? hkey)

theorem length_skipPadding_le (start : Nat) (bytes : List UInt8) :
    (skipPadding start bytes).length ≤ bytes.length := by
  simp [skipPadding]

theorem length_le_of_readTableSwitch? {branch : Branch Int}
    (h : readTableSwitch? start bytes = some (branch, rest)) :
    rest.length ≤ bytes.length := by
  simp only [readTableSwitch?, Option.bind_eq_bind, Option.bind_eq_some_iff,
    Prod.exists, Option.ite_none_left_eq_some] at h
  obtain ⟨_, _, hdefault, _, _, hlow, _, _, hhigh, -, _, _, htargets, hdone⟩ := h
  cases hdone
  have := length_le_of_readFar? hdefault
  have := length_le_of_readInt32? hlow
  have := length_le_of_readInt32? hhigh
  have := length_le_of_readTargets? htargets
  have := length_skipPadding_le start bytes
  omega

theorem length_le_of_readLookupSwitch? {branch : Branch Int}
    (h : readLookupSwitch? start bytes = some (branch, rest)) :
    rest.length ≤ bytes.length := by
  simp only [readLookupSwitch?, Option.bind_eq_bind, Option.bind_eq_some_iff,
    Prod.exists, Option.ite_none_left_eq_some] at h
  obtain ⟨_, _, hdefault, _, _, hcount, -, _, _, hpairs, hdone⟩ := h
  cases hdone
  have := length_le_of_readFar? hdefault
  have := length_le_of_readInt32? hcount
  have := length_le_of_readPairs? hpairs
  have := length_skipPadding_le start bytes
  omega

theorem length_le_of_readWide? {element : ElementOf Int}
    (h : readWide? bytes = some (element, rest)) : rest.length ≤ bytes.length := by
  cases bytes with
  | nil => cases h
  | cons opcode bytes =>
    simp only [readWide?] at h
    refine Nat.le_succ_of_le ?_
    split at h
    · obtain ⟨⟨_, _⟩, hslot, hdone⟩ := Option.map_eq_some_iff.1 h
      cases hdone
      exact length_le_of_readUInt16? hslot
    · obtain ⟨⟨_, _⟩, hslot, hdone⟩ := Option.map_eq_some_iff.1 h
      cases hdone
      exact length_le_of_readUInt16? hslot
    · simp only [Option.bind_eq_bind, Option.bind_eq_some_iff, Prod.exists] at h
      obtain ⟨_, _, hslot, _, _, hamount, hdone⟩ := h
      cases hdone
      exact Nat.le_trans (length_le_of_readInt16? hamount)
        (length_le_of_readUInt16? hslot)
    · cases h

/-- Reading operands does not lengthen what is left. -/
theorem Format.length_le_of_read? {format : Format} {element : ElementOf Int}
    (h : format.read? start bytes = some (element, rest)) :
    rest.length ≤ bytes.length := by
  cases format with
  | plain element =>
    cases h
    exact Nat.le_refl _
  | load kind | store kind | byteConstant =>
    cases bytes with
    | nil => cases h
    | cons first bytes =>
      cases h
      exact Nat.le_succ _
  | increment =>
    match bytes, h with
    | _ :: _ :: bytes, h =>
      cases h
      simp only [List.length_cons]
      omega
  | shortConstant =>
    obtain ⟨⟨_, _⟩, hread, hdone⟩ := Option.map_eq_some_iff.1 h
    cases hdone
    exact length_le_of_readInt16? hread
  | test _ | goto =>
    obtain ⟨⟨_, _⟩, hread, hdone⟩ := Option.map_eq_some_iff.1 h
    cases hdone
    exact length_le_of_readNear? hread
  | tableSwitch =>
    obtain ⟨⟨_, _⟩, hread, hdone⟩ := Option.map_eq_some_iff.1 h
    cases hdone
    exact length_le_of_readTableSwitch? hread
  | lookupSwitch =>
    obtain ⟨⟨_, _⟩, hread, hdone⟩ := Option.map_eq_some_iff.1 h
    cases hdone
    exact length_le_of_readLookupSwitch? hread
  | wide => exact length_le_of_readWide? h

/-- An instruction has one byte at least. -/
theorem length_lt_of_decodeInstruction? {element : ElementOf Int}
    (h : decodeInstruction? start bytes = some (element, rest)) :
    rest.length < bytes.length := by
  cases bytes with
  | nil => cases h
  | cons opcode operands =>
    simp only [decodeInstruction?, Option.bind_eq_bind, Option.bind_eq_some_iff] at h
    obtain ⟨format, -, hread⟩ := h
    exact Nat.lt_succ_of_le (Format.length_le_of_read? hread)

end Progress

/-- Reads all instructions of code of which the first is at `start`. -/
def decodeCode? (start : Nat) (bytes : List UInt8) :
    Option (List (ElementOf Int)) :=
  if bytes = [] then some []
  else
    match _ : decodeInstruction? start bytes with
    | none => none
    | some (element, rest) =>
        (decodeCode? (start + (bytes.length - rest.length)) rest).map
          (element :: ·)
termination_by bytes.length
decreasing_by exact length_lt_of_decodeInstruction? ‹_›

theorem decodeCode?_nil (start : Nat) : decodeCode? start [] = some [] := by
  rw [decodeCode?, if_pos rfl]

/-- Code is read one instruction after the other. -/
theorem decodeCode?_append {start : Nat} {bytes rest : List UInt8}
    {element : ElementOf Int}
    (h : decodeInstruction? start (bytes ++ rest) = some (element, rest)) :
    decodeCode? start (bytes ++ rest) =
      (decodeCode? (start + bytes.length) rest).map (element :: ·) := by
  have hne : bytes ++ rest ≠ [] := by
    intro hnil
    rw [hnil] at h
    cases h
  rw [decodeCode?, if_neg hne]
  split
  · next hnone =>
    rw [hnone] at h
    cases h
  · next hsome =>
    rw [hsome] at h
    cases h
    rw [List.length_append, Nat.add_sub_cancel]

end JvmMethod
