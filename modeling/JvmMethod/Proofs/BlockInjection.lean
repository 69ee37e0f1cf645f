import JvmMethod.Proofs.BlockOverTerminal
import JvmMethod.Proofs.FragmentRelocation
import JvmMethod.Proofs.StrayLabels

/-!
# A fragment inside a block

A fragment can be put into a terminal as it is, or inside a block.  A block places
three labels, which the fragment cannot mention, and is a supply of slots of its
own.  It hands out the same slots as the terminal would.

* `isWellFormed_inserted_iff`: the labels of a block do not matter.
* `BlockStack.run_inserted`, `BlockStack.exists_run_inserted`: what arrives from
  either way of putting a fragment into a terminal.
-/

namespace JvmMethod

/-- A fragment the way it arrives from a block, when `first` labels were known. -/
def framed (first : Nat) (elements : List Element) : List Element :=
  .label ⟨first + 1⟩ :: (elements ++ [.label ⟨first + 2⟩, .label ⟨first⟩])

/-- What arrives when elements are put into a terminal, maybe inside a block. -/
def inserted (isBlock : Bool) (first : Nat) (elements : List Element) : List Element :=
  if isBlock then framed first elements else elements

section Inserted

variable {count first : Nat} {elements : List Element} {initial : Slot} {isBlock : Bool}

theorem LabelsBelow.mentionsBelow (h : LabelsBelow count elements) :
    MentionsBelow count elements :=
  fun element hmem _ => h element hmem

/-- The labels of a block are not among those of its elements. -/
theorem alikeBelow_inserted (isBlock : Bool) (elements : List Element)
    (hcount : count ≤ first) :
    AlikeBelow count elements (inserted isBlock first elements) := by
  cases isBlock with
  | false => exact .refl count elements
  | true =>
    have hstart : AlikeBelow count elements (.label ⟨first + 1⟩ :: elements) :=
      .insert [] elements ⟨first + 1⟩ (by simp only; omega)
    have hstop : AlikeBelow count (.label ⟨first + 1⟩ :: elements)
        (.label ⟨first + 1⟩ :: elements ++ [.label ⟨first + 2⟩]) := by
      have hlast := AlikeBelow.insert (.label ⟨first + 1⟩ :: elements) [] ⟨first + 2⟩
        (Nat.le_trans hcount (Nat.le_add_right first 2))
      rwa [List.append_nil] at hlast
    have hbreak := AlikeBelow.insert
      (.label ⟨first + 1⟩ :: elements ++ [.label ⟨first + 2⟩]) [] ⟨first⟩ hcount
    rw [List.append_nil, List.append_assoc] at hbreak
    exact (hstart.trans hstop).trans hbreak

theorem nodup_inserted (hbelow : LabelsBelow count elements) (hcount : count ≤ first)
    (honce : (elements.filterMap ElementOf.placed?).Nodup) :
    ((inserted isBlock first elements).filterMap ElementOf.placed?).Nodup := by
  cases isBlock with
  | false => exact honce
  | true =>
    have hplaced : ∀ label ∈ elements.filterMap ElementOf.placed?,
        label.index < first := by
      intro label hmem
      have hbound := hbelow _ (mem_placed_iff.1 hmem) label (List.mem_singleton_self _)
      omega
    have hframe : (framed first elements).filterMap ElementOf.placed? =
        ⟨first + 1⟩ ::
          (elements.filterMap ElementOf.placed? ++ [⟨first + 2⟩, ⟨first⟩]) := by
      simp [framed, ElementOf.placed?]
    have hother (index : Nat) (hindex : first ≤ index) :
        (⟨index⟩ : Label) ∉ elements.filterMap ElementOf.placed? := by
      intro hmem
      have hbound := hplaced _ hmem
      simp only at hbound
      omega
    rw [inserted, if_pos rfl, hframe, List.nodup_cons, List.nodup_append]
    refine ⟨?_, honce, by simp, ?_⟩
    · have hstart := hother (first + 1) (by omega)
      simp [hstart]
    · intro label hmem other hframed hsame
      have hbound := hplaced label hmem
      rw [hsame] at hbound
      simp only [List.mem_cons, List.not_mem_nil, or_false] at hframed
      rcases hframed with rfl | rfl
      · simp only at hbound
        omega
      · exact Nat.lt_irrefl _ hbound

/-- **A block changes nothing about elements being well-formed.** -/
theorem isWellFormed_inserted_iff (hbelow : LabelsBelow count elements)
    (hcount : count ≤ first) :
    IsWellFormed initial (inserted isBlock first elements) ↔
      IsWellFormed initial elements := by
  have halike := alikeBelow_inserted isBlock elements hcount
  constructor
  · intro hwf
    apply halike.symm.isWellFormed (halike.mentionsBelow hbelow.mentionsBelow) ?_ hwf
    have honce := hwf.placed_once
    cases isBlock with
    | false => exact honce
    | true =>
      have hinside : elements.Sublist (framed first elements) :=
        (List.sublist_append_left elements _).cons _
      exact List.Nodup.sublist (hinside.filterMap _) honce
  · intro hwf
    exact halike.isWellFormed hbelow.mentionsBelow
      (nodup_inserted hbelow hcount hwf.placed_once) hwf

end Inserted

/-- A block around a body, or just the body. -/
def Build.maybeBlock {ω : Type} (isBlock : Bool) (body : Build ω Unit) : Build ω Unit :=
  if isBlock then Build.block body else body

namespace BlockStack

variable {terminal final : Terminal} {shift later : LocalShift} {isBlock : Bool}
  {fragment moved elements : List Element} {next : Relocation} {initial top : Slot}
  {block : Block} {after : BlockStack}

theorem Gets.exists_terminal (h : Gets ⟨[], terminal⟩ elements top after) :
    ∃ final, after = ⟨[], final⟩ ∧ final.topLocal = top := by
  obtain ⟨blocks, final⟩ := after
  have hblocks := h.frames
  rw [List.map_nil, List.map_eq_nil_iff] at hblocks
  cases hblocks
  exact ⟨final, rfl, h.topLocal⟩

theorem Gets.exists_block (h : Gets ⟨[block], terminal⟩ elements top after) :
    ∃ last final, after = ⟨[last], final⟩ ∧ last.frame = block.frame ∧
      final.topLocal = terminal.topLocal := by
  obtain ⟨blocks, final⟩ := after
  have hframes := h.frames
  rw [List.map_singleton, List.map_eq_singleton_iff] at hframes
  obtain ⟨last, rfl, hframe⟩ := hframes
  exact ⟨last, final, rfl, hframe, h.below (List.cons_ne_nil _ _)⟩

/-- **What arrives from a fragment** in a terminal that has taken nothing, maybe
inside a block. -/
theorem run_inserted (htaken : terminal.HasTaken [])
    (h : run (Build.maybeBlock isBlock
        (Build.acceptEach LocalShift.transform fragment)).run ⟨[], terminal⟩ shift =
      (.ok (), after, later)) :
    ∃ moved next final,
      (Relocation.mk shift terminal.topLocal).elements fragment = .ok (moved, next) ∧
      after = ⟨[], final⟩ ∧
      final.HasTaken (inserted isBlock terminal.labels.size moved) ∧
      final.topLocal = if isBlock then terminal.topLocal else next.top := by
  cases isBlock with
  | false =>
    obtain ⟨moved, next, hmoves, hgets⟩ := run_acceptEach h
    obtain ⟨final, rfl, htop⟩ := hgets.exists_terminal
    exact ⟨moved, next, final, hmoves, rfl, hgets.taken [] htaken, htop⟩
  | true =>
    obtain ⟨started, last, inside, closed, ended, hencloses, rfl⟩ := Encloses.of_run h
    obtain ⟨moved, next, hmoves, hgets⟩ := run_acceptEach hencloses.body
    obtain ⟨_, _, hafter, hframe, htop⟩ := hgets.exists_block
    cases hafter
    have hstarted := (htaken.withLabels 3).push hencloses.start
    have hclosed := (hgets.taken _ hstarted).push hencloses.stop
    have hended := hclosed.push hencloses.leave
    rw [(Prod.mk.inj hframe).1] at hended
    refine ⟨moved, next, ended, hmoves, rfl, ?_, ?_⟩
    · simpa [inserted, framed, Terminal.openedBlock] using hended
    · rw [Terminal.topLocal_of_push hencloses.leave,
        Terminal.topLocal_of_push hencloses.stop, htop, hencloses.topLocal_started]
      rfl

/-- **A fragment that can be relocated** can be put into the terminal, maybe inside
a block, if what comes of it is well-formed. -/
theorem exists_run_inserted (htaken : terminal.HasTaken [])
    (h : (Relocation.mk shift terminal.topLocal).elements fragment = .ok (moved, next))
    (hwf : IsWellFormed initial (inserted isBlock terminal.labels.size moved)) :
    ∃ after later, run (Build.maybeBlock isBlock
        (Build.acceptEach LocalShift.transform fragment)).run ⟨[], terminal⟩ shift =
      (.ok (), after, later) := by
  cases isBlock with
  | false =>
    have hmoved : IsWellFormed initial ([] ++ moved ++ []) := by
      rwa [List.nil_append, List.append_nil]
    exact exists_run_acceptEach h htaken hmoved
  | true =>
    have hlabels := htaken.withLabels 3
    obtain ⟨started, hstart⟩ := hlabels.exists_push hwf
    have hstarted := hlabels.push hstart
    have hframed : inserted true terminal.labels.size moved =
        [.label terminal.openedBlock.startLabel] ++ moved ++
          [.label terminal.openedBlock.stopLabel] ++
          [.label terminal.openedBlock.breakLabel] := by
      simp [inserted, framed, Terminal.openedBlock]
    rw [hframed] at hwf
    have hrelocates : (Relocation.mk shift
        (topLocal ⟨[terminal.openedBlock], started⟩)).elements fragment =
      .ok (moved, next) := h
    obtain ⟨after, later, hbody⟩ := exists_run_acceptEach hrelocates hstarted
      (by rwa [List.append_assoc _ [_] [_]] at hwf)
    obtain ⟨_, _, hmoves, hgets⟩ := run_acceptEach hbody
    rw [hrelocates] at hmoves
    cases hmoves
    obtain ⟨last, inside, rfl, hframe, htop⟩ := hgets.exists_block
    obtain ⟨hstopLabel, hterminalTop⟩ := Prod.mk.inj hframe
    have hinside := hgets.taken _ hstarted
    rw [← hstopLabel] at hwf
    obtain ⟨closed, hstop⟩ := hinside.exists_push
      (by rwa [List.append_assoc _ [_] [_]] at hwf)
    have hclosed := hinside.push hstop
    obtain ⟨ended, hleave⟩ := hclosed.exists_push hwf
    have hencloses : Encloses terminal (Build.acceptEach LocalShift.transform fragment)
        shift started last inside closed ended later := ⟨hstart, hbody, hstop, hleave⟩
    -- a terminal below a block hands out no slots, so the block can be closed
    refine ⟨_, _, hencloses.run_eq ?_⟩
    rw [Terminal.topLocal_of_push hstop, htop, hencloses.topLocal_started, hterminalTop]
    rfl

end BlockStack

end JvmMethod
