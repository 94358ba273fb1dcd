import Lazers.Memory.Paging

/-!
# What building page tables does to the frames

Whatever the page tables look like, the builder changes the global state in two
ways only: it takes frames from the allocator, and it writes to memory. `Drawn`
accounts for the frames taken between two builder states: each is either
recorded in the page list or lost, and nothing else of the state changed.
-/

namespace Lazers.Memory

/-- From `b` to `b'` the frames of `recorded` were taken and recorded, and those
of `lost` were taken and not recorded. -/
structure Drawn (b b' : BuilderState) (recorded lost : List Nat) : Prop where
  valid : b'.state.allocator.Valid
  perm : b.state.allocator.frames.Perm (recorded ++ (lost ++ b'.state.allocator.frames))
  owned : b'.ownedPages.map OwnedPages.list = b.ownedPages.map fun owned => owned.list ++ recorded
  context : b'.state = { b.state with phys := b'.state.phys, allocator := b'.state.allocator }

/-- Some frames were taken. -/
def Draws (b b' : BuilderState) : Prop := ∃ recorded lost, Drawn b b' recorded lost

namespace Drawn

variable {b b₁ b₂ : BuilderState} {recorded lost recorded' lost' : List Nat} {c : Nat}

theorem draws (h : Drawn b b₁ recorded lost) : Draws b b₁ := ⟨_, _, h⟩

theorem refl (h : b.state.allocator.Valid) : Drawn b b [] [] := ⟨h, .refl _, by simp, rfl⟩

theorem trans (h : Drawn b b₁ recorded lost) (h' : Drawn b₁ b₂ recorded' lost') :
    Drawn b b₂ (recorded ++ recorded') (lost ++ lost') where
  valid := h'.valid
  perm := by
    refine h.perm.trans ?_
    rw [List.append_assoc, List.append_assoc]
    refine List.Perm.append_left _ ?_
    calc (lost ++ b₁.state.allocator.frames).Perm
          (lost ++ (recorded' ++ (lost' ++ b₂.state.allocator.frames))) := h'.perm.append_left _
      _ = (lost ++ recorded') ++ (lost' ++ b₂.state.allocator.frames) := (List.append_assoc ..).symm
      List.Perm _ ((recorded' ++ lost) ++ (lost' ++ b₂.state.allocator.frames)) :=
        List.perm_append_comm.append_right _
      _ = recorded' ++ (lost ++ (lost' ++ b₂.state.allocator.frames)) := List.append_assoc ..
  owned := by
    rw [h'.owned]
    cases hb : b.ownedPages with
    | none =>
      have hnone := h.owned
      rw [hb] at hnone
      cases hb₁ : b₁.ownedPages with
      | none => rfl
      | some o => simp [hb₁] at hnone
    | some o =>
      have hsome := h.owned
      rw [hb] at hsome
      cases hb₁ : b₁.ownedPages with
      | none => simp [hb₁] at hsome
      | some o' =>
        rw [hb₁] at hsome
        simp only [Option.map_some, Option.some.injEq] at hsome ⊢
        rw [hsome, List.append_assoc]
  context := by
    rw [h'.context, h.context]

/-- A store changes no frame. -/
theorem store (h : b.state.allocator.Valid) (m : ByteMemory) :
    Drawn b { b with state.phys := m } [] [] := ⟨h, .refl _, by simp, rfl⟩

end Drawn

/-- Exactly the frames of `lost` were taken and not recorded. -/
def Keeps (lost : List Nat) (b b' : BuilderState) : Prop := ∃ recorded, Drawn b b' recorded lost

theorem Draws.refl {b : BuilderState} (h : b.state.allocator.Valid) : Draws b b :=
  (Drawn.refl h).draws

theorem Draws.trans {b b₁ b₂ : BuilderState} (h : Draws b b₁) (h' : Draws b₁ b₂) : Draws b b₂ := by
  obtain ⟨r, l, h⟩ := h
  obtain ⟨r', l', h'⟩ := h'
  exact (h.trans h').draws

theorem Draws.valid {b b' : BuilderState} (h : Draws b b') : b'.state.allocator.Valid := by
  obtain ⟨r, l, h⟩ := h
  exact h.valid

theorem Keeps.draws {lost : List Nat} {b b' : BuilderState} (h : Keeps lost b b') : Draws b b' := by
  obtain ⟨r, h⟩ := h
  exact h.draws

/-- Nothing is lost by what loses nothing. -/
theorem Keeps.trans {lost : List Nat} {b b₁ b₂ : BuilderState} (h : Keeps lost b b₁)
    (h' : Keeps [] b₁ b₂) : Keeps lost b b₂ := by
  obtain ⟨r, h⟩ := h
  obtain ⟨r', h'⟩ := h'
  exact ⟨r ++ r', by simpa using h.trans h'⟩

namespace Builder

/-- An operation that only takes frames and stores, whatever the tables hold, and
that records every frame it takes if it succeeds. -/
def TakesFrames {α : Type} (x : Builder α) : Prop :=
  ∀ b₀ lost, Triple (Keeps lost b₀) x (fun _ => Keeps lost b₀) (fun _ => Draws b₀)

/-- It is enough to look at one run from a valid state. -/
theorem TakesFrames.of_run {α : Type} {x : Builder α}
    (h : ∀ b, b.state.allocator.Valid → match x b with
      | .ok _ b' => Keeps [] b b'
      | .error _ b' => Draws b b') : TakesFrames x := by
  intro b₀ lost b hb
  have hrun := h b hb.draws.valid
  cases hx : x b with
  | ok a b' =>
    rw [hx] at hrun
    exact hb.trans hrun
  | error e b' =>
    rw [hx] at hrun
    exact hb.draws.trans hrun

theorem TakesFrames.draws {α : Type} {x : Builder α} (h : TakesFrames x) (b₀ : BuilderState) :
    Triple (Draws b₀) x (fun _ => Draws b₀) (fun _ => Draws b₀) := by
  refine Triple.of_start fun b hb => ?_
  obtain ⟨recorded, lost, hdrawn⟩ := hb
  refine (h b₀ lost).conseq (fun s hs => ?_) (fun _ _ h => h.draws) fun _ _ h => h
  rw [hs]
  exact ⟨recorded, hdrawn⟩

theorem readEntry_takes (table index : Nat) : TakesFrames (readEntry table index) :=
  fun _ _ _ h => h

theorem writeEntry_takes (table index entry : Nat) : TakesFrames (writeEntry table index entry) :=
  .of_run fun _ h => ⟨[], Drawn.store h _⟩

/-- `allocate_page` leaves its frame unrecorded. -/
theorem allocatePage_holds (b₀ : BuilderState) (lost : List Nat) :
    Triple (Keeps lost b₀) (withStateMut MemoryState.allocatePage)
      (fun c => Keeps (c :: lost) b₀) (fun _ => Draws b₀) := by
  intro b hb
  cases halloc : b.state.allocator.allocatePage with
  | none => simpa [withStateMut, MemoryState.allocatePage, halloc] using hb.draws
  | some r =>
    obtain ⟨c, a⟩ := r
    have hvalid := (PhysicalAllocator.allocatePage_spec hb.draws.valid halloc).1
    have hframes := PhysicalAllocator.frames_allocatePage hb.draws.valid halloc
    obtain ⟨r, h⟩ := hb
    have hstep : Drawn b
        { b with state.allocator := a, state.phys := b.state.phys.zero c pageSize } [] [c] :=
      ⟨hvalid, by rw [hframes]; rfl, by simp, rfl⟩
    have hboth := h.trans hstep
    simp only [withStateMut, MemoryState.allocatePage, halloc]
    refine ⟨r ++ [], hboth.valid, hboth.perm.trans ?_, hboth.owned, hboth.context⟩
    simpa using List.perm_middle.append_left r

/-- Recording a frame that was taken before. Without a page list the frame
belongs to the kernel. -/
theorem pushOwned_takes (b₀ : BuilderState) (lost : List Nat) (c : Nat) :
    Triple (Keeps (c :: lost) b₀) (pushOwned c) (fun _ => Keeps lost b₀) (fun _ => Draws b₀) := by
  rintro b ⟨recorded, h⟩
  have hperm : b₀.state.allocator.frames.Perm
      (recorded ++ [c] ++ (lost ++ b.state.allocator.frames)) := by
    simpa using h.perm
  have hold := h.owned
  cases howned : b.ownedPages with
  | none =>
    simp only [pushOwned, howned]
    refine ⟨recorded ++ [c], h.valid, hperm, ?_, h.context⟩
    cases hb : b₀.ownedPages with
    | none => rw [howned]; rfl
    | some o => simp [hb, howned] at hold
  | some owned =>
    rcases owned.push_cases c with ⟨hpush, -⟩ | ⟨owned', hpush, -, hlist⟩
    · simp only [pushOwned, howned, hpush]
      exact h.draws
    · simp only [pushOwned, howned, hpush]
      refine ⟨recorded ++ [c], h.valid, hperm, ?_, h.context⟩
      cases hb : b₀.ownedPages with
      | none => simp [hb, howned] at hold
      | some o =>
        simp only [hb, howned, Option.map_some, Option.some.injEq] at hold ⊢
        rw [hlist, hold, List.append_assoc]

theorem ensureTable_takes (table index extraFlags : Nat) :
    TakesFrames (ensureTable table index extraFlags) := by
  intro b₀ lost
  refine Triple.bind (readEntry_takes table index b₀ lost) fun entry => ?_
  split_ifs
  · exact Triple.bind (writeEntry_takes _ _ _ b₀ lost) fun _ => Triple.pure fun _ h => h
  · exact Triple.pure fun _ h => h
  · refine Triple.bind (allocatePage_holds b₀ lost) fun child => ?_
    refine Triple.bind (pushOwned_takes b₀ lost child) fun _ => ?_
    exact Triple.bind (writeEntry_takes _ _ _ b₀ lost) fun _ => Triple.pure fun _ h => h

theorem ensurePageDirectory_takes (root virt extraFlags : Nat) :
    TakesFrames (ensurePageDirectory root virt extraFlags) := fun b₀ lost =>
  Triple.bind (ensureTable_takes _ _ _ b₀ lost) fun _ => ensureTable_takes _ _ _ b₀ lost

theorem ensurePageTable_takes (root virt extraFlags : Nat) :
    TakesFrames (ensurePageTable root virt extraFlags) := fun b₀ lost =>
  Triple.bind (ensurePageDirectory_takes _ _ _ b₀ lost) fun _ => ensureTable_takes _ _ _ b₀ lost

theorem map2m_takes (root virt phys flags : Nat) : TakesFrames (map2m root virt phys flags) :=
  fun b₀ lost => Triple.bind (ensurePageDirectory_takes _ _ _ b₀ lost) fun _ => writeEntry_takes _ _ _ b₀ lost

theorem map4k_takes (root virt phys flags : Nat) : TakesFrames (map4k root virt phys flags) :=
  fun b₀ lost => Triple.bind (ensurePageTable_takes _ _ _ b₀ lost) fun _ => writeEntry_takes _ _ _ b₀ lost

theorem mapIdentity2mFrom_takes (root flags rounds address : Nat) :
    TakesFrames (mapIdentity2mFrom root flags rounds address) := by
  intro b₀ lost
  induction rounds generalizing address with
  | zero => exact Triple.pure fun _ h => h
  | succ rounds ih => exact Triple.bind (map2m_takes _ _ _ _ b₀ lost) fun _ => ih _

theorem mapIdentity4kFrom_takes (root flags rounds address : Nat) :
    TakesFrames (mapIdentity4kFrom root flags rounds address) := by
  intro b₀ lost
  induction rounds generalizing address with
  | zero => exact Triple.pure fun _ h => h
  | succ rounds ih => exact Triple.bind (map4k_takes _ _ _ _ b₀ lost) fun _ => ih _

theorem mapIdentity2mRange_takes (root start stop flags : Nat) :
    TakesFrames (mapIdentity2mRange root start stop flags) := mapIdentity2mFrom_takes _ _ _ _

theorem mapIdentity4kRange_takes (root start stop flags : Nat) :
    TakesFrames (mapIdentity4kRange root start stop flags) := mapIdentity4kFrom_takes _ _ _ _

end Builder

end Lazers.Memory
