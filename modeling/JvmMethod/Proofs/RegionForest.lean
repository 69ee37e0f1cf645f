import Mathlib.Data.List.Pairwise
import JvmMethod.Proofs.ChainArrivals

/-!
# Regions of code

Between the start and the stop label of a block is its *region*.  What a terminal
receives can be told as a list of *events*: each one is an element that arrives,
and some of them open or close a region.

Code is *well nested* if it is put together of elements, of regions with well
nested code inside, and of start labels of regions that are never closed.

* `WellNested.append`, `WellNested.open_append`: one piece of code after the other,
  at the top or in a region that is still open.
* `WellNested.exists_forest`: each region that is closed spans a stretch of the
  code, and of two of them one is inside the other, or they are apart.
-/

namespace JvmMethod

/-- The labels around a region. -/
structure Region where
  start : Label
  stop : Label
  deriving DecidableEq

/-- An arrival, and what it means for regions. -/
inductive RegionEvent where
  | came (arrival : Arrival)
  /-- The start label of a block, which is open from now on. -/
  | opened (region : Region)
  /-- The stop label of a block, which has been closed. -/
  | closed (region : Region)
  deriving DecidableEq

namespace RegionEvent

/-- What arrives. -/
def arrival : RegionEvent → Arrival
  | .came arrival => arrival
  | .opened region => .past (.label region.start)
  | .closed region => .past (.label region.stop)

/-- The element that arrives. -/
def element (event : RegionEvent) : Element :=
  event.arrival.element

@[simp] theorem arrival_came (arrival : Arrival) :
    (came arrival).arrival = arrival := rfl

@[simp] theorem element_opened (region : Region) :
    (opened region).element = .label region.start := rfl

@[simp] theorem element_closed (region : Region) :
    (closed region).element = .label region.stop := rfl

end RegionEvent

/-- Regions are closed in reverse order of their being opened, unless they are
never closed. -/
inductive WellNested : List RegionEvent → Prop where
  | nil : WellNested []
  | came {events : List RegionEvent} (arrival : Arrival)
      (rest : WellNested events) : WellNested (.came arrival :: events)
  | region {inner late : List RegionEvent} (region : Region)
      (inside : WellNested inner) (rest : WellNested late) :
      WellNested (.opened region :: (inner ++ .closed region :: late))
  | dropped {events : List RegionEvent} (region : Region)
      (rest : WellNested events) : WellNested (.opened region :: events)

namespace WellNested

variable {early late : List RegionEvent} {region : Region}

theorem of_arrivals (arrivals : List Arrival) :
    WellNested (arrivals.map .came) := by
  induction arrivals with
  | nil => exact .nil
  | cons arrival arrivals ih => exact .came arrival ih

theorem append (h : WellNested early) (hlate : WellNested late) :
    WellNested (early ++ late) := by
  induction h with
  | nil => exact hlate
  | came arrival _ ih => exact .came arrival ih
  | region region inside _ _ ih =>
    rw [List.cons_append, List.append_assoc, List.cons_append]
    exact .region region inside ih
  | dropped region _ ih => exact .dropped region ih

/-- More code at the start of a region that is open. -/
theorem open_append (h : WellNested early)
    (hlate : WellNested (.opened region :: late)) :
    WellNested (.opened region :: (early ++ late)) := by
  generalize hevents : .opened region :: late = events at hlate
  cases hlate with
  | nil | came => cases hevents
  | region _ inside rest =>
    cases hevents
    rw [← List.append_assoc]
    exact .region region (h.append inside) rest
  | dropped _ rest =>
    cases hevents
    exact .dropped region (h.append rest)

end WellNested

/-- A stretch of code, from the start label of a region to its stop label. -/
structure Span where
  region : Region
  first : Nat
  last : Nat
  deriving DecidableEq

/-- One of the stretches is inside the other, or they are apart. -/
def NestedOrApart (first last first' last' : Nat) : Prop :=
  last < first' ∨ last' < first ∨
    (first < first' ∧ last' < last) ∨ (first' < first ∧ last < last')

namespace Span

/-- The stretch in code that has more in front. -/
def shift (length : Nat) (span : Span) : Span :=
  { span with first := length + span.first, last := length + span.last }

/-- One of the stretches is inside the other, or they are apart. -/
def Fits (span other : Span) : Prop :=
  NestedOrApart span.first span.last other.first other.last

theorem Fits.symm {span other : Span} (h : span.Fits other) : other.Fits span := by
  unfold Fits NestedOrApart at h ⊢
  omega

instance : Std.Symm Fits := ⟨fun _ _ h => h.symm⟩

theorem Fits.shift {span other : Span} (h : span.Fits other) (length : Nat) :
    (span.shift length).Fits (other.shift length) := by
  unfold Fits NestedOrApart at h ⊢
  simp only [Span.shift]
  omega

end Span

/-- The stretches are those of the regions that are closed, and they fit. -/
structure Forest (events : List RegionEvent) (spans : List Span) : Prop where
  opened : ∀ span ∈ spans, events[span.first]? = some (.opened span.region)
  closed : ∀ span ∈ spans, events[span.last]? = some (.closed span.region)
  ordered : ∀ span ∈ spans, span.first < span.last
  covers : ∀ region, .closed region ∈ events → ∃ span ∈ spans, span.region = region
  fits : spans.Pairwise Span.Fits

namespace Forest

variable {events late inner : List RegionEvent} {spans others : List Span}

theorem nil : Forest [] [] where
  opened _ h := by cases h
  closed _ h := by cases h
  ordered _ h := by cases h
  covers _ h := by cases h
  fits := .nil

theorem last_lt (h : Forest events spans) {span : Span} (hmem : span ∈ spans) :
    span.last < events.length :=
  (List.getElem?_eq_some_iff.1 (h.closed span hmem)).1

/-- A stretch is from the start label of its region to the stop label. -/
theorem element_first (h : Forest events spans) {span : Span} (hmem : span ∈ spans) :
    (events.map RegionEvent.element)[span.first]? =
      some (.label span.region.start) := by
  rw [List.getElem?_map, h.opened span hmem, Option.map_some,
    RegionEvent.element_opened]

theorem element_last (h : Forest events spans) {span : Span} (hmem : span ∈ spans) :
    (events.map RegionEvent.element)[span.last]? =
      some (.label span.region.stop) := by
  rw [List.getElem?_map, h.closed span hmem, Option.map_some,
    RegionEvent.element_closed]

/-- Two stretches fit, if they are not the same. -/
theorem fits_of_ne (h : Forest events spans) {span other : Span}
    (hmem : span ∈ spans) (hother : other ∈ spans) (hne : span ≠ other) :
    span.Fits other :=
  h.fits.forall hmem hother hne

/-- What is in front of the region, inside, and behind it. -/
theorem exists_split (h : Forest events spans) {span : Span} (hmem : span ∈ spans) :
    ∃ before inner after,
      events = before ++ .opened span.region ::
        (inner ++ .closed span.region :: after) := by
  have hsplit {list : List RegionEvent} {index : Nat} {event : RegionEvent}
      (hat : list[index]? = some event) :
      list = list.take index ++ event :: list.drop (index + 1) := by
    obtain ⟨hlt, rfl⟩ := List.getElem?_eq_some_iff.1 hat
    rw [← List.drop_eq_getElem_cons hlt, List.take_append_drop]
  have hfirst := hsplit (h.opened span hmem)
  have hlast : (events.drop (span.first + 1))[span.last - (span.first + 1)]? =
      some (.closed span.region) := by
    have hlt := h.ordered span hmem
    rw [List.getElem?_drop, Nat.add_sub_cancel' (by omega)]
    exact h.closed span hmem
  rw [hsplit hlast] at hfirst
  exact ⟨_, _, _, hfirst⟩

/-- One event in front, which closes nothing. -/
theorem cons (h : Forest events spans) {event : RegionEvent}
    (hevent : ∀ region, event ≠ .closed region) :
    Forest (event :: events) (spans.map (Span.shift 1)) where
  opened := by
    simp only [List.forall_mem_map, Span.shift, Nat.add_comm 1,
      List.getElem?_cons_succ]
    exact h.opened
  closed := by
    simp only [List.forall_mem_map, Span.shift, Nat.add_comm 1,
      List.getElem?_cons_succ]
    exact h.closed
  ordered := by
    simp only [List.forall_mem_map, Span.shift, Nat.add_lt_add_iff_left]
    exact h.ordered
  covers region hmem := by
    rcases List.mem_cons.1 hmem with hhead | hrest
    · exact absurd hhead.symm (hevent region)
    · obtain ⟨span, hspan, hsame⟩ := h.covers region hrest
      exact ⟨_, List.mem_map_of_mem hspan, hsame⟩
  fits := h.fits.map _ fun _ _ hfits => hfits.shift 1

/-- One piece of code after the other. -/
theorem append (h : Forest events spans) (hlate : Forest late others) :
    Forest (events ++ late) (spans ++ others.map (Span.shift events.length)) where
  opened span hmem := by
    rcases List.mem_append.1 hmem with hold | hnew
    · have hlt := Nat.lt_trans (h.ordered span hold) (h.last_lt hold)
      rw [List.getElem?_append_left hlt]
      exact h.opened span hold
    · obtain ⟨span, hspan, rfl⟩ := List.mem_map.1 hnew
      rw [Span.shift, List.getElem?_append_right (by simp), Nat.add_sub_cancel_left]
      exact hlate.opened span hspan
  closed span hmem := by
    rcases List.mem_append.1 hmem with hold | hnew
    · rw [List.getElem?_append_left (h.last_lt hold)]
      exact h.closed span hold
    · obtain ⟨span, hspan, rfl⟩ := List.mem_map.1 hnew
      rw [Span.shift, List.getElem?_append_right (by simp), Nat.add_sub_cancel_left]
      exact hlate.closed span hspan
  ordered span hmem := by
    rcases List.mem_append.1 hmem with hold | hnew
    · exact h.ordered span hold
    · obtain ⟨span, hspan, rfl⟩ := List.mem_map.1 hnew
      exact Nat.add_lt_add_left (hlate.ordered span hspan) _
  covers region hmem := by
    rcases List.mem_append.1 hmem with hold | hnew
    · obtain ⟨span, hspan, hsame⟩ := h.covers region hold
      exact ⟨span, List.mem_append_left _ hspan, hsame⟩
    · obtain ⟨span, hspan, hsame⟩ := hlate.covers region hnew
      exact ⟨_, List.mem_append_right _ (List.mem_map_of_mem hspan), hsame⟩
  fits := by
    refine List.pairwise_append.2
      ⟨h.fits, hlate.fits.map _ fun _ _ hfits => hfits.shift _, ?_⟩
    intro span hspan other hother
    obtain ⟨other, -, rfl⟩ := List.mem_map.1 hother
    -- all of the first piece is in front of the second one
    have hlt := h.last_lt hspan
    exact .inl (by simp only [Span.shift]; omega)

/-- A region around code. -/
theorem region (h : Forest inner spans) (region : Region) :
    Forest (.opened region :: (inner ++ [.closed region]))
      (⟨region, 0, inner.length + 1⟩ :: spans.map (Span.shift 1)) := by
  have hopened : Forest (.opened region :: inner) (spans.map (Span.shift 1)) :=
    h.cons fun _ => RegionEvent.noConfusion
  rw [← List.cons_append]
  constructor
  case opened =>
    refine List.forall_mem_cons.2 ⟨rfl, fun span hspan => ?_⟩
    have hlt := Nat.lt_trans (hopened.ordered span hspan) (hopened.last_lt hspan)
    rw [List.getElem?_append_left hlt]
    exact hopened.opened span hspan
  case closed =>
    refine List.forall_mem_cons.2 ⟨by simp, fun span hspan => ?_⟩
    rw [List.getElem?_append_left (hopened.last_lt hspan)]
    exact hopened.closed span hspan
  case ordered =>
    exact List.forall_mem_cons.2 ⟨Nat.succ_pos _, hopened.ordered⟩
  case covers =>
    intro other hmem
    rcases List.mem_append.1 hmem with hinner | hlast
    · obtain ⟨span, hspan, hsame⟩ := hopened.covers other hinner
      exact ⟨span, List.mem_cons_of_mem _ hspan, hsame⟩
    · cases List.mem_singleton.1 hlast
      exact ⟨_, List.mem_cons_self, rfl⟩
  case fits =>
    refine List.pairwise_cons.2 ⟨fun span hspan => ?_, hopened.fits⟩
    -- what is inside the region is behind its start label and before its stop label
    have hlt := hopened.last_lt hspan
    obtain ⟨span, -, rfl⟩ := List.mem_map.1 hspan
    refine .inr (.inr (.inl ⟨?_, ?_⟩))
    · simp only [Span.shift]
      omega
    · simpa using hlt

end Forest

/-- **Well nested code is a forest** of regions. -/
theorem WellNested.exists_forest {events : List RegionEvent} (h : WellNested events) :
    ∃ spans, Forest events spans := by
  induction h with
  | nil => exact ⟨[], .nil⟩
  | came arrival _ ih =>
    obtain ⟨spans, hforest⟩ := ih
    exact ⟨_, hforest.cons fun _ => RegionEvent.noConfusion⟩
  | dropped region _ ih =>
    obtain ⟨spans, hforest⟩ := ih
    exact ⟨_, hforest.cons fun _ => RegionEvent.noConfusion⟩
  | @region inner late region _ _ ihinner ihlate =>
    obtain ⟨spans, hinner⟩ := ihinner
    obtain ⟨others, hlate⟩ := ihlate
    have hforest := (hinner.region region).append hlate
    rw [List.cons_append, List.append_assoc, List.singleton_append] at hforest
    exact ⟨_, hforest⟩

end JvmMethod
