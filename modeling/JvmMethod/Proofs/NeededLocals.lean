import JvmMethod.Proofs.StrayLabels
import JvmMethod.Proofs.TerminalRelations

/-!
# How many local slots a body needs

A direct terminal keeps two numbers: the next slot to hand out, and the highest
end of a slot that was handed out or mentioned.  A buffered terminal has only the
first one, and finds the second when it replays its elements.  Blocks hand out
slots of their own and tell neither; the terminal learns of those from the
elements that mention them.

* `Direct.AccountsFor`: the terminal has noted the ends of the slots of the
  elements, and of refused elements nothing.
* `Chain.maxLocals_exact`: so the number of slots that a finished body asks for is
  exactly what it needs.
-/

namespace JvmMethod

variable {ω α : Type}

namespace Direct

variable {direct : Direct} {elements : List Element}

/-- The ends of the slots of the elements are noted, and none of the slots is for
a void value. -/
structure AccountsFor (elements : List Element) (direct : Direct) : Prop where
  notes : direct.NotesLocals elements
  no_void : ∀ element ∈ elements, touchesVoid element = false

theorem AccountsFor.start (initial : Slot) :
    (withInitialLocals initial).AccountsFor [] where
  notes := by simp [NotesLocals, withInitialLocals, slotsEnd]
  no_void _ h := by cases h

theorem isKept_accountsFor : IsKept AccountsFor where
  taken := by
    intro elements direct element h htakes
    refine ⟨h.notes.taken, ?_⟩
    intro other hmem
    rcases List.mem_append.1 hmem with hearlier | hlast
    · exact h.no_void other hearlier
    · cases List.mem_singleton.1 hlast
      exact htakes.not_void
  wrote := by
    intro elements direct next h hwrote
    obtain ⟨⟨code, fixups, rfl⟩, -⟩ := hwrote
    exact ⟨h.notes, h.no_void⟩
  freshLabel h := ⟨h.notes, h.no_void⟩
  allocate kind h := ⟨h.notes.allocate kind, h.no_void⟩

/-- The number of slots that is written down is not cut. -/
theorem toNat_of_neededLocals {needed : UInt16} (h : direct.neededLocals = .ok needed)
    (hnotes : direct.NotesLocals elements) :
    needed.toNat = max direct.topLocal.toNat (slotsEnd elements) := by
  simp only [neededLocals] at h
  split at h
  · next hfits =>
    cases h
    rw [UInt16.toNat_ofNat', Nat.mod_eq_of_lt (by omega)]
    exact hnotes
  · cases h

end Direct

namespace Chain

/-- **A finished body asks for exactly the slots that it needs.**  Whatever was
done with the builders, with or without success, these are the slots that the
terminal has handed out, and those of the elements that it has taken.  So every
slot that is mentioned is below, both of them for a wide value. -/
theorem maxLocals_exact {chain : Chain ω} (hnew : chain.bottom.IsNew)
    {script : Script ω α} {ambient : ω} {body : MethodBody}
    (hfinish : (chain.run script ambient).2.1.bottom.finish = .ok body) :
    body.maxLocals.toNat =
        max (chain.run script ambient).2.1.bottom.topLocal.toNat
          (slotsEnd (chain.emitted script ambient)) ∧
      ∀ element ∈ chain.emitted script ambient, ∀ slot kind,
        element.localSlot? = some (slot, kind) →
        kind ≠ .void ∧
          ∀ half < kind.width, slot.toNat + half < body.maxLocals.toNat := by
  have hrelates := chain.relates_run script ambient Direct.isKept_accountsFor
    (hnew.relates Direct.AccountsFor.start)
  have hresume (buffered : Buffered) : buffered.resume.AccountsFor [] :=
    ⟨(Direct.HasTaken.resume buffered).notes, fun _ h => by cases h⟩
  obtain ⟨final, hfinal, htop, hbody⟩ :=
    hrelates.finish_ok Direct.isKept_accountsFor hresume hfinish
  rw [List.nil_append] at hfinal
  obtain ⟨-, -, -, -, -, hneeded, -⟩ := Direct.finish_eq_ok_iff.1 hbody
  have hexact := Direct.toNat_of_neededLocals hneeded hfinal.notes
  rw [htop] at hexact
  refine ⟨hexact, ?_⟩
  intro element hmem slot kind hslot
  have hend := slotsEnd_le_iff.1 (Nat.le_refl _) element hmem
  simp only [ElementOf.slotEnd, hslot] at hend
  refine ⟨?_, fun half hhalf => by omega⟩
  rintro rfl
  exact Direct.touchesVoid_eq_false_iff.1 (hfinal.no_void element hmem) slot hslot

/-- A block that hands out slots from the sixth on, over a terminal that has
handed out one. -/
def blockOverDirect : Chain Unit :=
  .block
    { startLabel := ⟨0⟩, stopLabel := ⟨1⟩, breakLabel := ⟨2⟩, topLocal := 6
      terminalTop := 1 }
    (.terminal (.direct (.withInitialLocals 1)))

/-- Stores a wide value, after a store that is refused. -/
def storeWide : Build Unit Unit := do
  let slot ← Build.allocate .long
  try Build.push (.store .void 900) catch _ => pure ()
  Build.push (.store .long slot)

/-- The body of the store. -/
def storeWideBody : MethodBody where
  code := #[55, 6]
  maxLocals := 8
  labelOffsets := #[]
  handlers := #[]
  lines := #[]
  localVariables := #[]
  localVariableTypes := #[]

/-- Only the block knew of the slot, and the terminal has handed out none. -/
theorem storeWide_maxLocals :
    blockOverDirect.bottom.IsNew ∧
      (blockOverDirect.run storeWide.run ()).2.1.bottom.finish = .ok storeWideBody ∧
      (blockOverDirect.run storeWide.run ()).2.1.bottom.topLocal = 1 ∧
      blockOverDirect.emitted storeWide.run () = [.store .long 6] ∧
      storeWideBody.maxLocals.toNat = max 1 (slotsEnd [.store .long 6]) ∧
      ∀ half < 2, 6 + half < storeWideBody.maxLocals.toNat := by
  have hnew : blockOverDirect.bottom.IsNew := ⟨1, rfl⟩
  have hcode : blockOverDirect.emitted storeWide.run () = [.store .long 6] := rfl
  have hfinish : (blockOverDirect.run storeWide.run ()).2.1.bottom.finish =
      .ok storeWideBody := by
    decide +kernel
  obtain ⟨hexact, hslots⟩ := maxLocals_exact hnew hfinish
  rw [hcode] at hexact hslots
  have hhalves := (hslots _ List.mem_cons_self 6 .long rfl).2
  exact ⟨hnew, hfinish, rfl, hcode, hexact, hhalves⟩

end Chain

end JvmMethod
