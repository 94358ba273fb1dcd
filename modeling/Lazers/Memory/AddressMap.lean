import Lazers.Lib.Triple
import Lazers.Memory.Types
import Mathlib.Data.Finset.Card
import Mathlib.Data.Finset.Prod

/-!
# An address space as a map

What page-table construction is for: an address space is two partial maps, from
page numbers and from two-megabyte slots to the entry stored for them, and
building it costs frames. `AddressMap` keeps the maps next to the frames that
are still free (lowest first), the list frames are recorded in, and the tables
that exist, each named by its level and number.

The edits below mention no memory. `Lazers.Memory.Refinement` shows that the
builder's operations follow them in lockstep.
-/

namespace Lazers.Memory

/-- An address space under construction. -/
structure AddressMap where
  /-- Free frames in the order they are handed out. -/
  frames : List Nat
  /-- The page list frames are recorded in, if there is one. -/
  owned : Option (List Nat)
  /-- Tables below the root. -/
  tables : Finset (Nat × Nat)
  /-- Tables whose link carries the user bit. -/
  links : Finset (Nat × Nat)
  page : Nat → Option Nat
  slot : Nat → Option Nat

abbrev Edit := EStateM MemoryError AddressMap

namespace AddressMap

/-! ## Edits -/

/-- Hand out the first free frame. -/
def take : Edit Nat := fun s =>
  match s.frames with
  | [] => .error .allocatorExhausted s
  | f :: rest => .ok f { s with frames := rest }

/-- Record a frame in the page list. -/
def record (f : Nat) : Edit Unit := fun s =>
  match s.owned with
  | none => .ok () s
  | some l =>
    if maxOwnedPages ≤ l.length then .error .ownedPageCapacityExceeded s
    else .ok () { s with owned := some (l ++ [f]) }

/-- Open the link of a table to user mode, if asked. -/
def openLink (s : AddressMap) (key : Nat × Nat) (user : Bool) : AddressMap :=
  if user then { s with links := insert key s.links } else s

/-- Make sure a table exists, and open its link. -/
def ensure (key : Nat × Nat) (user : Bool) : Edit Unit := do
  let s ← get
  if key ∉ s.tables then do
    let f ← take
    record f
    modify fun s => { s with tables := insert key s.tables }
  modify fun s => s.openLink key user

/-- The directory tables above two-megabyte slot `n`. -/
def ensureDirectory (n : Nat) (user : Bool) : Edit Unit := do
  ensure (3, n / 512 / 512) user
  ensure (2, n / 512) user

/-- Enter a huge page. -/
def mapSlot (n phys flags : Nat) : Edit Unit := do
  ensureDirectory n (flags.testBit 2)
  modify fun s => { s with slot := Function.update s.slot n (some (phys ||| flags ||| pageHuge)) }

/-- Enter a page. -/
def mapPage (n phys flags : Nat) : Edit Unit := do
  ensureDirectory (n / 512) (flags.testBit 2)
  ensure (1, n / 512) (flags.testBit 2)
  modify fun s => { s with page := Function.update s.page n (some (phys ||| flags)) }

/-- Enter `rounds` slots from `n` on, each at its own address. -/
def mapSlots (flags : Nat) : (rounds n : Nat) → Edit Unit
  | 0, _ => return ()
  | rounds + 1, n => do
    mapSlot n (n * hugePageSize) flags
    mapSlots flags rounds (n + 1)

/-- Enter `rounds` pages from `n` on, each at its own address. -/
def mapPages (flags : Nat) : (rounds n : Nat) → Edit Unit
  | 0, _ => return ()
  | rounds + 1, n => do
    mapPage n (n * pageSize) flags
    mapPages flags rounds (n + 1)

/-! ## Running the edits -/

section

variable (s : AddressMap) (key : Nat × Nat) (user : Bool)

@[simp] theorem openLink_frames : (s.openLink key user).frames = s.frames := by
  cases user <;> rfl

@[simp] theorem openLink_owned : (s.openLink key user).owned = s.owned := by
  cases user <;> rfl

@[simp] theorem openLink_tables : (s.openLink key user).tables = s.tables := by
  cases user <;> rfl

@[simp] theorem openLink_page : (s.openLink key user).page = s.page := by
  cases user <;> rfl

@[simp] theorem openLink_slot : (s.openLink key user).slot = s.slot := by
  cases user <;> rfl

end

theorem ensure_of_mem {s : AddressMap} {key : Nat × Nat} {user : Bool} (h : key ∈ s.tables) :
    ensure key user s = .ok () (s.openLink key user) := by
  show (if key ∉ s.tables then _ else _ : Edit Unit) s = _
  rw [if_neg (not_not_intro h)]
  rfl

theorem ensure_of_not_mem {s : AddressMap} {key : Nat × Nat} {user : Bool} (h : key ∉ s.tables) :
    ensure key user s = (take >>= fun f => record f >>= fun _ =>
      modify fun s => ({ s with tables := insert key s.tables }).openLink key user) s := by
  show (if key ∉ s.tables then _ else _ : Edit Unit) s = _
  rw [if_pos h]
  show EStateM.bind take _ s = EStateM.bind take _ s
  unfold EStateM.bind
  cases take s with
  | error e s' => rfl
  | ok f s' =>
    show EStateM.bind (record f) _ s' = EStateM.bind (record f) _ s'
    unfold EStateM.bind
    cases record f s' with
    | error e s'' => rfl
    | ok _ s'' => rfl

/-! ## What the edits do to the maps -/

/-- `rounds` pages from `n` on entered at their own addresses. -/
def paintPages (page : Nat → Option Nat) (flags n rounds : Nat) : Nat → Option Nat := fun i =>
  if n ≤ i ∧ i < n + rounds then some (i * pageSize ||| flags) else page i

/-- `rounds` slots from `n` on entered at their own addresses. -/
def paintSlots (slot : Nat → Option Nat) (flags n rounds : Nat) : Nat → Option Nat := fun i =>
  if n ≤ i ∧ i < n + rounds then some (i * hugePageSize ||| flags ||| pageHuge) else slot i

theorem paintPages_update (page : Nat → Option Nat) (flags n rounds : Nat) :
    paintPages (Function.update page n (some (n * pageSize ||| flags))) flags (n + 1) rounds =
      paintPages page flags n (rounds + 1) := by
  funext i
  simp only [paintPages, Function.update_apply]
  by_cases hi : i = n
  · subst hi
    rw [if_neg (by omega), if_pos rfl, if_pos (by omega)]
  · rw [if_neg hi]
    by_cases hin : n + 1 ≤ i ∧ i < n + 1 + rounds
    · rw [if_pos hin, if_pos (by omega)]
    · rw [if_neg hin, if_neg (by omega)]

theorem paintSlots_update (slot : Nat → Option Nat) (flags n rounds : Nat) :
    paintSlots (Function.update slot n (some (n * hugePageSize ||| flags ||| pageHuge))) flags
      (n + 1) rounds = paintSlots slot flags n (rounds + 1) := by
  funext i
  simp only [paintSlots, Function.update_apply]
  by_cases hi : i = n
  · subst hi
    rw [if_neg (by omega), if_pos rfl, if_pos (by omega)]
  · rw [if_neg hi]
    by_cases hin : n + 1 ≤ i ∧ i < n + 1 + rounds
    · rw [if_pos hin, if_pos (by omega)]
    · rw [if_neg hin, if_neg (by omega)]

/-- The maps of an address space. -/
def Maps (page slot : Nat → Option Nat) (s : AddressMap) : Prop := s.page = page ∧ s.slot = slot

section

variable {page slot : Nat → Option Nat}

theorem take_maps : Triple (Maps page slot) take (fun _ => Maps page slot)
    (fun _ => Maps page slot) := by
  intro s h
  cases hf : s.frames with
  | nil => simpa [take, hf] using h
  | cons f rest => simpa [take, hf, Maps] using h

theorem record_maps (f : Nat) : Triple (Maps page slot) (record f) (fun _ => Maps page slot)
    (fun _ => Maps page slot) := by
  intro s h
  cases ho : s.owned with
  | none => simpa [record, ho] using h
  | some l =>
    by_cases hfull : maxOwnedPages ≤ l.length
    · simpa [record, ho, hfull] using h
    · simpa [record, ho, hfull, Maps] using h

theorem ensure_maps (key : Nat × Nat) (user : Bool) :
    Triple (Maps page slot) (ensure key user) (fun _ => Maps page slot)
      (fun _ => Maps page slot) := by
  intro s h
  by_cases hmem : key ∈ s.tables
  · rw [ensure_of_mem hmem]
    simpa [Maps] using h
  · rw [ensure_of_not_mem hmem]
    refine Triple.bind take_maps (fun f => Triple.bind (record_maps f) fun _ => ?_) s h
    exact Triple.modify fun s' h' => by simpa [Maps] using h'

theorem ensureDirectory_maps (n : Nat) (user : Bool) :
    Triple (Maps page slot) (ensureDirectory n user) (fun _ => Maps page slot)
      (fun _ => Maps page slot) :=
  Triple.bind (ensure_maps _ _) fun _ => ensure_maps _ _

theorem mapPage_maps (n phys flags : Nat) :
    Triple (Maps page slot) (mapPage n phys flags)
      (fun _ => Maps (Function.update page n (some (phys ||| flags))) slot)
      (fun _ => Maps page slot) := by
  refine Triple.bind (ensureDirectory_maps _ _) fun _ => ?_
  refine Triple.bind (ensure_maps _ _) fun _ => ?_
  rintro s ⟨rfl, rfl⟩
  exact ⟨rfl, rfl⟩

theorem mapSlot_maps (n phys flags : Nat) :
    Triple (Maps page slot) (mapSlot n phys flags)
      (fun _ => Maps page (Function.update slot n (some (phys ||| flags ||| pageHuge))))
      (fun _ => Maps page slot) := by
  refine Triple.bind (ensureDirectory_maps _ _) fun _ => ?_
  rintro s ⟨rfl, rfl⟩
  exact ⟨rfl, rfl⟩

/-- Entering pages one by one; a failure leaves a prefix of them entered. -/
theorem mapPages_maps (flags rounds n : Nat) :
    Triple (Maps page slot) (mapPages flags rounds n)
      (fun _ => Maps (paintPages page flags n rounds) slot)
      (fun _ s => ∃ done < rounds, Maps (paintPages page flags n done) slot s) := by
  have hzero : ∀ (page : Nat → Option Nat) n, paintPages page flags n 0 = page := by
    intro page n
    funext i
    exact if_neg (by omega)
  induction rounds generalizing n page with
  | zero =>
    rw [hzero]
    exact Triple.pure fun _ h => h
  | succ rounds ih =>
    refine Triple.bind ((mapPage_maps n (n * pageSize) flags).conseq (fun _ h => h)
      (fun _ _ h => h) fun _ s h => ⟨0, by omega, by rwa [hzero]⟩) fun _ => ?_
    refine (ih (n + 1)).conseq (fun _ h => h) (fun _ s h => ?_) fun _ s h => ?_
    · rwa [paintPages_update] at h
    · obtain ⟨done, hlt, h⟩ := h
      rw [paintPages_update] at h
      exact ⟨done + 1, by omega, h⟩

/-- Entering slots one by one. -/
theorem mapSlots_maps (flags rounds n : Nat) :
    Triple (Maps page slot) (mapSlots flags rounds n)
      (fun _ => Maps page (paintSlots slot flags n rounds))
      (fun _ s => ∃ done < rounds, Maps page (paintSlots slot flags n done) s) := by
  have hzero : ∀ (slot : Nat → Option Nat) n, paintSlots slot flags n 0 = slot := by
    intro slot n
    funext i
    exact if_neg (by omega)
  induction rounds generalizing n slot with
  | zero =>
    rw [hzero]
    exact Triple.pure fun _ h => h
  | succ rounds ih =>
    refine Triple.bind ((mapSlot_maps n (n * hugePageSize) flags).conseq (fun _ h => h)
      (fun _ _ h => h) fun _ s h => ⟨0, by omega, by rwa [hzero]⟩) fun _ => ?_
    refine (ih (n + 1)).conseq (fun _ h => h) (fun _ s h => ?_) fun _ s h => ?_
    · rwa [paintSlots_update] at h
    · obtain ⟨done, hlt, h⟩ := h
      rw [paintSlots_update] at h
      exact ⟨done + 1, by omega, h⟩

end

end AddressMap

end Lazers.Memory
