import Lazers.Memory.LoadRefinement
import Mathlib.Order.Interval.Finset.Nat

/-!
# What a load costs

An edit that makes some tables exist takes one frame per missing table, in
turn, and records each right away. `Demands K` says so for an edit that needs
the tables of `K`: it succeeds when the frames and the page list have room for
all of them, and otherwise fails at the first frame that is missing (nothing is
lost) or at the first frame that finds the page list full (that one is lost).

A page costs a frame of its own, which is taken before its tables and recorded
after them. A load that stops in between loses it.
-/

namespace Lazers.Memory

open AddressMap Elf

namespace AddressMap

/-- All frames are accounted for: of `total`, the page list holds the root, one
per table and one per placed page, and `held` are in hand. -/
structure Paid (total held placed : Nat) (tables : Finset (Nat × Nat)) (s : AddressMap) :
    Prop where
  tables_eq : s.tables = tables
  owned : ∃ l, s.owned = some l ∧ l.length = 1 + tables.card + placed ∧
    l.length ≤ maxOwnedPages ∧ l.length + s.frames.length + held = total

/-- Of `total` frames, `lost` are neither free nor recorded. -/
def Missing (total lost : Nat) (s : AddressMap) : Prop :=
  ∃ l, s.owned = some l ∧ l.length + s.frames.length + lost = total

/-- Tables are bought in turn, so a failure loses at most one of their frames. -/
def Demands (K : Finset (Nat × Nat)) {α : Type} (x : Edit α) : Prop :=
  ∀ total held placed T, Triple (Paid total held placed T) x
    (fun _ => Paid total held placed (T ∪ K))
    (fun _ s => min (total - held) maxOwnedPages < 1 + (T ∪ K).card + placed ∧
      Missing total (held + if total - held ≤ maxOwnedPages then 0 else 1) s)

theorem Paid.missing {total held placed : Nat} {T : Finset (Nat × Nat)} {s : AddressMap}
    (h : Paid total held placed T s) : Missing total held s := by
  obtain ⟨l, ho, -, -, hsum⟩ := h.owned
  exact ⟨l, ho, hsum⟩

/-- What fits when everything is paid. -/
theorem Paid.le {total held placed : Nat} {T : Finset (Nat × Nat)} {s : AddressMap}
    (h : Paid total held placed T s) :
    1 + T.card + placed ≤ maxOwnedPages ∧ 1 + T.card + placed + held ≤ total := by
  obtain ⟨l, -, hlen, hmax, hsum⟩ := h.owned
  omega

theorem Demands.congr {K K' : Finset (Nat × Nat)} {α : Type} {x : Edit α} (h : Demands K x)
    (heq : K = K') : Demands K' x := heq ▸ h

theorem demands_pure {α : Type} (a : α) : Demands ∅ (pure a : Edit α) := by
  intro total held placed T
  rw [Finset.union_empty]
  exact Triple.pure fun _ h => h

theorem demands_modify {f : AddressMap → AddressMap}
    (h : ∀ s, (f s).tables = s.tables ∧ (f s).owned = s.owned ∧ (f s).frames = s.frames) :
    Demands ∅ (modify f : Edit PUnit) := by
  intro total held placed T
  rw [Finset.union_empty]
  refine Triple.modify fun s hs => ?_
  obtain ⟨ht, ho, hf⟩ := h s
  exact ⟨ht.trans hs.tables_eq, by rw [ho, hf]; exact hs.owned⟩

theorem Demands.bind {K K' : Finset (Nat × Nat)} {α β : Type} {x : Edit α} {f : α → Edit β}
    (hx : Demands K x) (hf : ∀ a, Demands K' (f a)) : Demands (K ∪ K') (x >>= f) := by
  intro total held placed T
  have hcard : (T ∪ K).card ≤ (T ∪ (K ∪ K')).card :=
    Finset.card_le_card (Finset.union_subset_union_right Finset.subset_union_left)
  refine Triple.bind ((hx total held placed T).conseq (fun _ h => h) (fun _ _ h => h)
    fun _ s h => ⟨by omega, h.2⟩) fun a => ?_
  rw [← Finset.union_assoc]
  exact hf a total held placed (T ∪ K)

theorem ensure_demands (key : Nat × Nat) (user : Bool) : Demands {key} (ensure key user) := by
  intro total held placed T s hs
  obtain ⟨l, ho, hlen, hmax, hsum⟩ := hs.owned
  by_cases hmem : key ∈ s.tables
  · rw [ensure_of_mem hmem]
    have hT : T ∪ {key} = T := by
      rw [← hs.tables_eq]
      exact Finset.union_eq_left.mpr (Finset.singleton_subset_iff.mpr hmem)
    rw [hT]
    exact ⟨by simp [hs.tables_eq], by simpa using hs.owned⟩
  · have hcard : (T ∪ {key}).card = T.card + 1 := by
      rw [Finset.union_comm, ← Finset.insert_eq, Finset.card_insert_of_notMem (hs.tables_eq ▸ hmem)]
    rw [ensure_of_not_mem hmem]
    cases hf : s.frames with
    | nil =>
      have htake : take s = .error .allocatorExhausted s := by simp [take, hf]
      rw [EStateM.bind_eq_error.mpr (.inl htake)]
      rw [hf, List.length_nil] at hsum
      refine ⟨by omega, l, ho, ?_⟩
      rw [if_pos (by omega), hf, List.length_nil]
      omega
    | cons f rest =>
      have htake : take s = .ok f { s with frames := rest } := by simp [take, hf]
      rw [EStateM.bind_of_ok htake]
      rw [hf, List.length_cons] at hsum
      by_cases hfull : maxOwnedPages ≤ l.length
      · have hrec : record f { s with frames := rest } =
            .error .ownedPageCapacityExceeded { s with frames := rest } := by
          simp [record, ho, hfull]
        rw [EStateM.bind_eq_error.mpr (.inl hrec)]
        refine ⟨by omega, l, ho, ?_⟩
        rw [if_neg (by omega)]
        show l.length + rest.length + _ = total
        omega
      · have hrec : record f { s with frames := rest } =
            .ok () { s with frames := rest, owned := some (l ++ [f]) } := by
          simp [record, ho, hfull]
        rw [EStateM.bind_of_ok hrec]
        refine ⟨?_, l ++ [f], ?_, ?_, ?_, ?_⟩
        · rw [openLink_tables, Finset.union_comm, ← Finset.insert_eq, hs.tables_eq]
        · rw [openLink_owned]
        · rw [List.length_append, List.length_singleton, hcard]
          omega
        · rw [List.length_append, List.length_singleton]
          omega
        · rw [openLink_frames, List.length_append, List.length_singleton]
          show l.length + 1 + rest.length + held = total
          omega

/-! ## The context -/

/-- The tables above a two-megabyte slot. -/
def slotPath (n : Nat) : Finset (Nat × Nat) := {(3, n / 512 / 512)} ∪ {(2, n / 512)}

theorem ensureDirectory_demands (n : Nat) (user : Bool) :
    Demands (slotPath n) (ensureDirectory n user) :=
  (ensure_demands _ _).bind fun _ => ensure_demands _ _

theorem mapSlot_demands (n phys flags : Nat) : Demands (slotPath n) (mapSlot n phys flags) := by
  unfold mapSlot
  refine Demands.congr ((ensureDirectory_demands _ _).bind fun _ =>
    demands_modify fun _ => ⟨rfl, rfl, rfl⟩) ?_
  exact Finset.union_empty _

theorem mapPage_demands (n phys flags : Nat) : Demands (pagePath n) (mapPage n phys flags) := by
  unfold mapPage
  refine Demands.congr ((ensureDirectory_demands _ _).bind fun _ =>
    (ensure_demands _ _).bind fun _ => demands_modify fun _ => ⟨rfl, rfl, rfl⟩) ?_
  rw [Finset.union_empty, slotPath, pagePath]
  rfl

/-- A range of edits demands what its members demand. -/
theorem Ico_biUnion_succ (f : Nat → Finset (Nat × Nat)) (n rounds : Nat) :
    f n ∪ (Finset.Ico (n + 1) (n + 1 + rounds)).biUnion f =
      (Finset.Ico n (n + (rounds + 1))).biUnion f := by
  have hIco : Finset.Ico n (n + (rounds + 1)) = insert n (Finset.Ico (n + 1) (n + 1 + rounds)) := by
    ext i
    simp only [Finset.mem_Ico, Finset.mem_insert]
    omega
  rw [hIco, Finset.biUnion_insert]

theorem mapSlots_demands (flags rounds n : Nat) :
    Demands ((Finset.Ico n (n + rounds)).biUnion slotPath) (mapSlots flags rounds n) := by
  induction rounds generalizing n with
  | zero => exact (demands_pure ()).congr (by simp)
  | succ rounds ih =>
    exact ((mapSlot_demands _ _ _).bind fun _ => ih (n + 1)).congr (Ico_biUnion_succ _ _ _)

theorem mapPages_demands (flags rounds n : Nat) :
    Demands ((Finset.Ico n (n + rounds)).biUnion pagePath) (mapPages flags rounds n) := by
  induction rounds generalizing n with
  | zero => exact (demands_pure ()).congr (by simp)
  | succ rounds ih =>
    exact ((mapPage_demands _ _ _).bind fun _ => ih (n + 1)).congr (Ico_biUnion_succ _ _ _)

/-- The tables above the pages of some ranges. -/
def rangeTables (ranges : List ContextRange) : Finset (Nat × Nat) :=
  ranges.toFinset.biUnion fun r =>
    (Finset.Ico (r.start / 4096) ((r.stop + 4095) / 4096)).biUnion pagePath

theorem mapRanges_demands (ranges : List ContextRange) :
    Demands (rangeTables ranges) (mapRanges ranges) := by
  induction ranges with
  | nil => exact (demands_pure ()).congr rfl
  | cons r rest ih =>
    refine ((mapPages_demands _ _ _).bind fun _ => ih).congr ?_
    have hIco : Finset.Ico (r.start / 4096)
        (r.start / 4096 + ((r.stop + 4095) / 4096 - r.start / 4096)) =
        Finset.Ico (r.start / 4096) ((r.stop + 4095) / 4096) := by
      ext i
      simp only [Finset.mem_Ico]
      omega
    rw [rangeTables, rangeTables, List.toFinset_cons, Finset.biUnion_insert, hIco]

end AddressMap

/-- The tables the kernel context needs. -/
def MemoryState.contextTables (s : MemoryState) : Finset (Nat × Nat) :=
  (Finset.Ico (physWindowStart / 2097152) (s.physWindowEnd / 2097152)).biUnion slotPath ∪
    rangeTables s.contextRanges

theorem mapContext_demands (s : MemoryState) :
    Demands s.contextTables (mapContext s.physWindowEnd s.contextRanges) := by
  refine ((mapSlots_demands _ _ _).bind fun _ => mapRanges_demands _).congr ?_
  have hIco : Finset.Ico (physWindowStart / 2097152) (physWindowStart / 2097152 +
      (s.physWindowEnd / 2097152 - physWindowStart / 2097152)) =
      Finset.Ico (physWindowStart / 2097152) (s.physWindowEnd / 2097152) := by
    ext i
    simp only [Finset.mem_Ico]
    omega
  rw [hIco]
  rfl

end Lazers.Memory
