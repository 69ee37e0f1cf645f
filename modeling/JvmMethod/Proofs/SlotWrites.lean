import JvmMethod.SlotTable

/-!
# What a table of slots remembers

A table starts empty, and then keys are given slots: any keys, in any order, some
of them more than once.  Between them the array grows, and the gaps that this
opens are filled with zeros.  From outside nothing of this is to be seen: the
table is a finite map.

* `SlotTable.Remembers.insert`: one write more.
* `SlotTable.insertAll_refines`: a table gives back what was written last, and
  nothing where nothing was written.
-/

namespace JvmMethod

/-- The key was given the slot, and nothing after that. -/
def IsLastWrite (writes : List (Nat × Slot)) (key : Nat) (slot : Slot) : Prop :=
  ∃ before after, writes = before ++ (key, slot) :: after ∧
    ∀ write ∈ after, write.1 ≠ key

/-- One write more is the last one of its key, and of no other. -/
theorem isLastWrite_concat {writes : List (Nat × Slot)} {key other : Nat}
    {slot target : Slot} :
    IsLastWrite (writes ++ [(key, slot)]) other target ↔
      if other = key then target = slot else IsLastWrite writes other target := by
  constructor
  · rintro ⟨before, after, hwrites, hlast⟩
    rcases List.eq_nil_or_concat after with rfl | ⟨earlier, last, rfl⟩
    · obtain ⟨-, hsame⟩ := List.append_inj' hwrites rfl
      cases hsame
      rw [if_pos rfl]
    · rw [List.concat_eq_append, ← List.cons_append, ← List.append_assoc] at hwrites
      obtain ⟨rfl, hsame⟩ := List.append_inj' hwrites rfl
      cases hsame
      have hother : other ≠ key := fun heq => hlast (key, slot) (by simp) heq.symm
      rw [if_neg hother]
      exact ⟨before, earlier, rfl, fun write hmem => hlast write (by simp [hmem])⟩
  · intro h
    split at h
    · next hsame =>
      subst hsame h
      exact ⟨writes, [], rfl, by simp⟩
    · next hother =>
      obtain ⟨before, after, rfl, hlast⟩ := h
      refine ⟨before, after ++ [(key, slot)], by simp, ?_⟩
      intro write hmem
      rcases List.mem_append.1 hmem with hearlier | hnew
      · exact hlast write hearlier
      · cases List.mem_singleton.1 hnew
        exact Ne.symm hother

namespace SlotTable

/-- Gives keys their slots, one after the other. -/
def insertAll (table : SlotTable) (writes : List (Nat × Slot)) : SlotTable :=
  writes.foldl (fun table (key, slot) => table.insert key slot) table

/-- The table is the finite map that the writes make. -/
structure Remembers (writes : List (Nat × Slot)) (table : SlotTable) : Prop where
  get?_eq_some_iff : ∀ key slot,
    table.get? key = some slot ↔ IsLastWrite writes key slot
  get?_eq_none_iff : ∀ key,
    table.get? key = none ↔ ∀ write ∈ writes, write.1 ≠ key
  contains_iff : ∀ key,
    table.contains key = true ↔ ∃ slot, table.get? key = some slot
  has_room : ∀ write ∈ writes, write.1 < table.capacity

section Capacity

variable (table : SlotTable) (key : Nat) (slot : Slot) (writes : List (Nat × Slot))

/-- Room is made only for a key that there is none for. -/
theorem capacity_insert_eq :
    (table.insert key slot).capacity =
      if key < table.capacity then table.capacity
      else max (key + 1) (2 * table.capacity) := by
  rw [capacity_insert, capacity_grow]

theorem lt_capacity_insert : key < (table.insert key slot).capacity := by
  rw [capacity_insert]
  exact table.lt_capacity_grow key

theorem capacity_le_insert : table.capacity ≤ (table.insert key slot).capacity := by
  rw [capacity_insert_eq]
  split <;> omega

/-- No room is ever given up. -/
theorem capacity_le_insertAll : table.capacity ≤ (table.insertAll writes).capacity := by
  induction writes generalizing table with
  | nil => exact Nat.le_refl _
  | cons write writes ih =>
    calc table.capacity
      _ ≤ (table.insert write.1 write.2).capacity := table.capacity_le_insert _ _
      _ ≤ (table.insertAll (write :: writes)).capacity := ih _

end Capacity

namespace Remembers

variable {table : SlotTable} {writes more : List (Nat × Slot)}

theorem start : Remembers [] {} where
  get?_eq_some_iff key slot := by
    have hempty : ({} : SlotTable).get? key = none := by simp [get?]
    simp [hempty, IsLastWrite]
  get?_eq_none_iff key := by simp [get?]
  contains_iff key := Option.isSome_iff_exists
  has_room write hmem := by cases hmem

/-- **One write more.** -/
theorem insert (h : table.Remembers writes) (key : Nat) (slot : Slot) :
    (table.insert key slot).Remembers (writes ++ [(key, slot)]) where
  get?_eq_some_iff other target := by
    rw [get?_insert, isLastWrite_concat]
    split
    · rw [Option.some.injEq, eq_comm]
    · exact h.get?_eq_some_iff other target
  get?_eq_none_iff other := by
    have hothers := h.get?_eq_none_iff other
    rw [get?_insert]
    split
    · next hsame => simp [hsame]
    · next hother => simp [hothers, or_imp, forall_and, Ne.symm hother]
  contains_iff other := Option.isSome_iff_exists
  has_room write hmem := by
    rcases List.mem_append.1 hmem with hearlier | hnew
    · exact Nat.lt_of_lt_of_le (h.has_room write hearlier)
        (table.capacity_le_insert key slot)
    · cases List.mem_singleton.1 hnew
      exact table.lt_capacity_insert key slot

theorem insertAll (h : table.Remembers writes) :
    (table.insertAll more).Remembers (writes ++ more) := by
  induction more generalizing writes table with
  | nil => rwa [List.append_nil]
  | cons write more ih =>
    have hrest := ih (h.insert write.1 write.2)
    rwa [List.append_assoc] at hrest

end Remembers

/-- **A table of slots is a finite map.**  Whatever was written to it, it gives back
the slot that a key was given last, and nothing for a key that was given none, be it
in a gap or past the end.  It has room for all keys that were written, gives up none
when more is written, and makes more for a key that there is none for: up to the key,
or twice as much as before if that is more. -/
theorem insertAll_refines (writes more : List (Nat × Slot)) :
    let table := insertAll {} writes
    table.Remembers writes ∧
      table.capacity ≤ (table.insertAll more).capacity ∧
      ∀ key slot, (table.insert key slot).capacity =
        if key < table.capacity then table.capacity
        else max (key + 1) (2 * table.capacity) := by
  intro table
  exact ⟨Remembers.start.insertAll, table.capacity_le_insertAll more,
    table.capacity_insert_eq⟩

/-- The lowest slot and the highest one, in gaps and over a slot of before. -/
example :
    let table := insertAll {} [(3, 0), (40, 9), (41, 65535), (3, 65535), (0, 0)]
    (table.get? 0, table.get? 2, table.get? 3, table.get? 41, table.get? 82) =
        (some 0, none, some 65535, some 65535, none) ∧
      table.capacity = 82 := by
  decide +kernel

end SlotTable

end JvmMethod
