import Mathlib.Algebra.Order.Ring.Nat
import JvmMethod.Proofs.ChainRequests

/-!
# Slots that the terminal hands out while a block is open

A block hands out slots of its own and does not tell the terminal.  If the
terminal hands out slots while the block is open, they may be the same ones, so
closing the block compares the terminal's next free slot with what it was when
the block was opened.

Slots get to the terminal by several ways: past all layers, or through a
transform below the block that allocates on what is below it.  The *claims* of a
script are what the terminal has handed out while it was run, by whatever way.

* `Chain.claims_run`: the terminal's next free slot moves by the widths of
  the claims.
* `Chain.closeBlock_detects`: closing a block fails exactly if there were claims
  since it was opened.
-/

namespace JvmMethod

variable {ω α : Type}

/-- The kinds of the values that the terminal gives slots to with a request, by
how it answers. -/
def Request.claims : (request : Request) → request.Answer → List Kind
  | .allocate kind, .ok _ => [kind]
  | .terminalAllocate kind, .ok _ => [kind]
  | _, _ => []

/-- The kinds of the values that the terminal gives slots to while a script is
run. -/
def Script.claims : Script ω α → Terminal → ω → List Kind
  | .done _, _, _ => []
  | .ask request next, terminal, ambient =>
      let (answer, terminal) := terminal.answer request
      request.claims answer ++ (next answer).claims terminal ambient
  | .read next, terminal, ambient => (next ambient).claims terminal ambient
  | .change f next, terminal, ambient => next.claims terminal (f ambient)

/-- The kinds of the values that the terminal of a chain gives slots to while a
script is run on the chain. -/
def Chain.claims : Chain ω → {α : Type} → Script ω α → ω → List Kind
  | .terminal state, _, script, ambient => script.claims state ambient
  | .block opened below, _, script, ambient =>
      below.claims (script.inBlock opened) ambient
  | .transform layer stage below, _, script, ambient =>
      below.claims
        (script.through layer fun element => (stage.accept element).run) ambient

/-- How many slots values of the kinds take. -/
def totalWidth (kinds : List Kind) : Nat :=
  (kinds.map Kind.width).sum

/-- What was given slots takes some, and the next free slot is behind it. -/
structure Terminal.Claims (before : Terminal) (kinds : List Kind) (after : Terminal) :
    Prop where
  toNat_topLocal :
    after.topLocal.toNat = before.topLocal.toNat + totalWidth kinds
  width_pos : ∀ kind ∈ kinds, 0 < kind.width

namespace Terminal

variable {before middle after : Terminal} {early late : List Kind}

theorem Claims.of_eq (h : after.topLocal = before.topLocal) :
    before.Claims [] after where
  toNat_topLocal := congrArg UInt16.toNat h
  width_pos := by simp

theorem Claims.append (h : before.Claims early middle)
    (hlate : middle.Claims late after) : before.Claims (early ++ late) after where
  toNat_topLocal := by
    have hfirst := h.toNat_topLocal
    have hthen := hlate.toNat_topLocal
    simp only [totalWidth, List.map_append, List.sum_append] at hfirst hthen ⊢
    omega
  width_pos := by
    intro kind hmem
    rcases List.mem_append.1 hmem with hearly | hlater
    · exact h.width_pos kind hearly
    · exact hlate.width_pos kind hlater

/-- There were no claims if and only if the next free slot is where it was. -/
theorem Claims.eq_nil_iff (h : before.Claims early after) :
    early = [] ↔ after.topLocal = before.topLocal := by
  have htop := h.toNat_topLocal
  cases early with
  | nil => simpa [totalWidth, UInt16.toNat_inj] using htop
  | cons kind kinds =>
    have hpos := h.width_pos kind List.mem_cons_self
    simp only [totalWidth, List.map_cons, List.sum_cons] at htop
    simp only [reduceCtorEq, false_iff]
    intro hsame
    rw [hsame] at htop
    omega

theorem width_pos_of_claimSlot {top next : Slot} {kind : Kind}
    (h : claimSlot top kind = .ok next) : 0 < kind.width := by
  cases kind with
  | void => cases h
  | _ => decide

theorem claims_allocate (terminal : Terminal) (kind : Kind) :
    terminal.Claims (Request.claims (.allocate kind) (terminal.allocate kind).1)
      (terminal.allocate kind).2 := by
  have hspec := terminal.allocate_spec kind
  rcases hallocate : terminal.allocate kind with ⟨fault | slot, next⟩
  · rw [hallocate] at hspec
    exact .of_eq (congrArg topLocal hspec)
  · rw [hallocate] at hspec
    obtain ⟨rfl, hclaim⟩ := hspec
    refine ⟨?_, ?_⟩
    · simpa [Request.claims, totalWidth] using toNat_of_claimSlot hclaim
    · simpa [Request.claims] using width_pos_of_claimSlot hclaim

/-- One request. -/
theorem claims_answer (terminal : Terminal) (request : Request) :
    terminal.Claims (request.claims (terminal.answer request).1)
      (terminal.answer request).2 := by
  cases request with
  | allocate kind => exact terminal.claims_allocate kind
  | terminalAllocate kind =>
    have hclaims := terminal.claims_allocate kind
    simp only [answer]
    cases hanswer : (terminal.allocate kind).1 <;> rw [hanswer] at hclaims <;>
      exact hclaims
  | push element | terminalPush element =>
    exact .of_eq (terminal.topLocal_push element)
  | freshLabel => exact .of_eq terminal.topLocal_freshLabel
  | topLocal | terminal | layers => exact .of_eq rfl

end Terminal

/-- All requests of a script. -/
theorem Script.claims_run (script : Script ω α) (terminal : Terminal)
    (ambient : ω) :
    terminal.Claims (script.claims terminal ambient)
      (script.run terminal ambient).2.1 := by
  induction script generalizing terminal ambient with
  | done => exact .of_eq rfl
  | ask request next ih =>
    exact (terminal.claims_answer request).append (ih _ _ _)
  | read _ ih => exact ih _ _ _
  | change _ _ ih => exact ih _ _

/-- What a block compares with when it is closed. -/
structure Block.SameCheck (block last : Block) : Prop where
  stopLabel : last.stopLabel = block.stopLabel
  terminalTop : last.terminalTop = block.terminalTop

/-- Nothing that is done inside a block changes what it compares with. -/
theorem Script.inBlock_sameCheck (script : Script ω α) (block : Block) :
    (script.inBlock block).Ensures fun (_, last) => block.SameCheck last := by
  refine script.asks_any.ensures_inBlock ?_ ?_ ⟨rfl, rfl⟩
  · intro last element answer hlast
    cases answer <;> exact ⟨hlast.stopLabel, hlast.terminalTop⟩
  · intro last kind _ hlast
    unfold Block.allocate
    split <;> exact ⟨hlast.stopLabel, hlast.terminalTop⟩

namespace Chain

/-- **The terminal of a chain** hands out slots for the claims, and for nothing
else. -/
theorem claims_run (chain : Chain ω) (script : Script ω α) (ambient : ω) :
    chain.bottom.Claims (chain.claims script ambient)
      (chain.run script ambient).2.1.bottom := by
  induction chain generalizing α with
  | terminal state => exact script.claims_run state ambient
  | block opened below ih => exact ih (script.inBlock opened)
  | transform layer stage below ih => exact ih _

/-- What is done with a chain leaves the uppermost block its check. -/
theorem sameCheck_of_run {opened below : Chain ω} {block last : Block}
    {script : Script ω α} {result : α} {ambient later : ω}
    (h : (Chain.block block opened).run script ambient =
      (result, .block last below, later)) : block.SameCheck last := by
  have hensures := opened.run_ensures (script.inBlock_sameCheck block) ambient
  have hlast : (opened.run (script.inBlock block) ambient).1.2 = last := by
    have hchain := congrArg (fun run => run.2.1) h
    injection hchain
  rw [← hlast]
  exact hensures

/-- **Closing a block detects claims.**  Between opening it and closing it,
anything may be done with the block, and inside of it other blocks and
transforms may come and go, but for placing its stop label.  Closing it fails if
and only if the terminal has handed out slots meanwhile, and then it names the
terminal's next free slots then and now, which are as far apart as what was
handed out is wide. -/
theorem closeBlock_detects {chain opened below : Chain ω}
    {startLabel? : Option Label} {breakLabel : Label} {block last : Block}
    {body : Script ω α} {result : α} {ambient between later : ω}
    (hopen : chain.run (Build.openBlockFrom startLabel? breakLabel).run ambient =
      (.ok block, opened, between))
    (hbody : (Chain.block block opened).run body between =
      (result, .block last below, later))
    (hunbound : below.bottom.labels.isBound block.stopLabel = false) :
    let claimed := (Chain.block block opened).claims body between
    (below.run (Build.closeBlock last).run later).1 =
        (if claimed = [] then .ok last.summary
        else .error
          (.localSlotInterference chain.bottom.topLocal below.bottom.topLocal)) ∧
      below.bottom.topLocal.toNat =
        chain.bottom.topLocal.toNat + totalWidth claimed := by
  intro claimed
  obtain ⟨answer, state, hrun, hopens⟩ :=
    chain.run_openBlockFrom ambient startLabel? breakLabel
  rw [hopen] at hrun
  cases hrun
  have htop := hopens.block_terminalTop block rfl
  have hcheck := sameCheck_of_run hbody
  have hclaims : chain.bottom.Claims claimed below.bottom := by
    have hall := (Chain.block block (chain.withBottom state)).claims_run body ambient
    rw [hbody] at hall
    refine Terminal.Claims.append (.of_eq ?_) hall
    simpa only [bottom, bottom_withBottom] using hopens.state_topLocal
  obtain ⟨answer, final, hclose, -, hanswer⟩ := below.run_closeBlock later last
  rw [hclose, hanswer (hcheck.stopLabel ▸ hunbound), hcheck.terminalTop, htop]
  refine ⟨?_, hclaims.toNat_topLocal⟩
  by_cases hquiet : claimed = []
  · rw [if_pos hquiet, if_pos (hclaims.eq_nil_iff.1 hquiet)]
  · rw [if_neg hquiet, if_neg fun hsame => hquiet (hclaims.eq_nil_iff.2 hsame)]

/-- A transform that takes a wide slot for every element, over a terminal of
which two slots are taken. -/
def claimingChain : Chain Unit :=
  .transform .chained
    { accept := fun element => do
        let _ ← Build.allocate .long
        Build.push element }
    (.terminal (.buffered (.withInitialLocals 2)))

/-- A block on top of it. -/
def claimingBlock : Block :=
  { startLabel := ⟨0⟩, stopLabel := ⟨1⟩, breakLabel := ⟨9⟩, topLocal := 2
    terminalTop := 2 }

/-- Takes a slot in the block, and another one in a block inside, and pushes an
element in between. -/
def localsAround : Build Unit Unit := do
  let _ ← Build.allocate .int
  Build.push (.operator .nop)
  let inner ← Build.openBlock ⟨9⟩
  let _ ← Build.within inner (Build.allocate .double)

theorem claimingBlock_detects :
    ∃ (opened below : Chain Unit) (last : Block),
      claimingChain.run (Build.openBlockFrom none ⟨9⟩).run () =
        (.ok claimingBlock, opened, ()) ∧
      (Chain.block claimingBlock opened).run localsAround.run () =
        (.ok (), .block last below, ()) ∧
      below.bottom.labels.isBound claimingBlock.stopLabel = false ∧
      (Chain.block claimingBlock opened).claims localsAround.run () = [.long] ∧
      (below.run (Build.closeBlock last).run ()).1 =
        (if (Chain.block claimingBlock opened).claims localsAround.run () = [] then
          .ok last.summary
        else .error (.localSlotInterference claimingChain.bottom.topLocal
          below.bottom.topLocal)) ∧
      below.bottom.topLocal.toNat = claimingChain.bottom.topLocal.toNat +
        totalWidth
          ((Chain.block claimingBlock opened).claims localsAround.run ()) := by
  refine ⟨_, _, _, rfl, rfl, rfl, rfl, ?_⟩
  exact @closeBlock_detects _ _ claimingChain _ _ none ⟨9⟩ claimingBlock _ _ _ _ _ _
    rfl rfl rfl

end Chain

end JvmMethod
