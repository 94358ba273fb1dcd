import Lazers.Lib.ByteMemory

/-!
# Four-level x86-64 page tables in byte memory

`walk` is what the processor does with a root and a virtual address: four
levels of 512 eight-byte entries, where a present entry with the huge bit ends
the walk early.

A *shape* names the tables of an address space: `tab ℓ k` is the frame of the
level-`ℓ` table that covers the entries `512 * k + i` of its level (so `tab 4 0`
is the root and `tab 1 (v / 2^21)` the page table of `v`). `Tree m tab root`
says that memory holds exactly these tables, each linked from its parent, and
that nothing else is linked. Then the walk is a lookup in two flat maps
(`walk_eq`): `leaf2m` over two-megabyte slots and `leaf4k` over pages. The four
ways a kernel edits the tables each keep the tree and change one map at one
place: `Tree.relabel`, `Tree.link`, `Tree.setLeaf`, `Tree.setHuge`.
-/

namespace PageTable

/-! ## Entries -/

def present (e : Nat) : Bool := e.testBit 0
def writable (e : Nat) : Bool := e.testBit 1
def user (e : Nat) : Bool := e.testBit 2
def huge (e : Nat) : Bool := e.testBit 7

/-- The address bits 12 to 51 of an entry. -/
def frame (e : Nat) : Nat := e &&& 0x000ffffffffff000

/-- The flag bits of an entry built as `address ||| flags`. -/
theorem testBit_or_flags {a g i : Nat} (ha : a % 4096 = 0) (hi : i < 12) :
    (a ||| g).testBit i = g.testBit i := by
  obtain ⟨q, rfl⟩ : ∃ q, a = 2 ^ 12 * q := ⟨a / 4096, by omega⟩
  rw [Nat.testBit_or, Nat.testBit_two_pow_mul]
  simp [Nat.not_le.mpr hi]

theorem testBit_frameMask (i : Nat) :
    (0x000ffffffffff000 : Nat).testBit i = (decide (12 ≤ i) && decide (i < 52)) := by
  have hmask : (0x000ffffffffff000 : Nat) = 2 ^ 12 * (2 ^ 40 - 1) := by decide
  rw [hmask, Nat.testBit_two_pow_mul, Nat.testBit_two_pow_sub_one]
  by_cases h : 12 ≤ i
  · have hiff : i - 12 < 40 ↔ i < 52 := by omega
    simp [h, hiff]
  · simp [h]

/-- An entry built as `address ||| flags` holds its address. -/
theorem frame_or_flags {a g : Nat} (ha : a % 4096 = 0) (hlt : a < 2 ^ 52) (hg : g < 4096) :
    frame (a ||| g) = a := by
  apply Nat.eq_of_testBit_eq
  intro i
  rw [frame, Nat.testBit_and, testBit_frameMask, Nat.testBit_or]
  by_cases hlow : i < 12
  · have hzero : a.testBit i = false := by
      obtain ⟨q, rfl⟩ : ∃ q, a = 2 ^ 12 * q := ⟨a / 4096, by omega⟩
      rw [Nat.testBit_two_pow_mul]
      simp [Nat.not_le.mpr hlow]
    simp [hzero, Nat.not_le.mpr hlow]
  · have hflag : g.testBit i = false :=
      Nat.testBit_eq_false_of_lt (hg.trans_le (Nat.pow_le_pow_right (by decide) (by omega) :
        2 ^ 12 ≤ 2 ^ i))
    by_cases hhigh : i < 52
    · simp [hflag, hhigh, Nat.le_of_not_lt hlow]
    · have hzero : a.testBit i = false :=
        Nat.testBit_eq_false_of_lt (hlt.trans_le (Nat.pow_le_pow_right (by decide) (by omega)))
      simp [hzero, hhigh]

/-- Adding a flag bit keeps the address. -/
theorem frame_or_of_lt {e g : Nat} (hg : g < 4096) : frame (e ||| g) = frame e := by
  apply Nat.eq_of_testBit_eq
  intro i
  rw [frame, frame, Nat.testBit_and, Nat.testBit_and, testBit_frameMask, Nat.testBit_or]
  by_cases hlow : i < 12
  · simp [Nat.not_le.mpr hlow]
  · have hflag : g.testBit i = false :=
      Nat.testBit_eq_false_of_lt (hg.trans_le (Nat.pow_le_pow_right (by decide) (by omega) :
        2 ^ 12 ≤ 2 ^ i))
    simp [hflag]

/-- Entry `i` of the table at `table`. -/
def entry (m : ByteMemory) (table i : Nat) : Nat := m.readU64 (table + 8 * i)

/-- The number of the entry that covers `v` among all entries of its level. -/
def num (level v : Nat) : Nat := v / 2 ^ (3 + 9 * level)

theorem num_succ (level v : Nat) : num (level + 1) v = num level v / 512 := by
  rw [num, num, Nat.div_div_eq_div_mul]
  congr 1
  rw [show (512 : Nat) = 2 ^ 9 from rfl, ← Nat.pow_add]
  congr 1

/-- The index bits of `v` for one level. -/
def index (level v : Nat) : Nat := num level v % 512

/-! ## The walk -/

/-- Where an address leads and which accesses every level allows. -/
structure Translation where
  phys : Nat
  writable : Bool
  user : Bool
deriving DecidableEq, Repr

/-- The processor's four-level walk. -/
def walk (m : ByteMemory) (root v : Nat) : Option Translation :=
  let e₄ := entry m root (index 4 v)
  if present e₄ then
    let e₃ := entry m (frame e₄) (index 3 v)
    if present e₃ then
      if huge e₃ then
        some {
          phys := frame e₃ / 2 ^ 30 * 2 ^ 30 + v % 2 ^ 30
          writable := writable e₄ && writable e₃
          user := user e₄ && user e₃ }
      else
        let e₂ := entry m (frame e₃) (index 2 v)
        if present e₂ then
          if huge e₂ then
            some {
              phys := frame e₂ / 2 ^ 21 * 2 ^ 21 + v % 2 ^ 21
              writable := writable e₄ && writable e₃ && writable e₂
              user := user e₄ && user e₃ && user e₂ }
          else
            let e₁ := entry m (frame e₂) (index 1 v)
            if present e₁ then
              some {
                phys := frame e₁ + v % 2 ^ 12
                writable := writable e₄ && writable e₃ && writable e₂ && writable e₁
                user := user e₄ && user e₃ && user e₂ && user e₁ }
            else none
        else none
    else none
  else none

/-! ## Shapes and trees -/

/-- The frame of the table with a given level and number. -/
abbrev Shape := Nat → Nat → Option Nat

/-- A table entry that points to the table at `f`. -/
structure IsTable (e f : Nat) : Prop where
  present : present e = true
  writable : writable e = true
  not_huge : huge e = false
  frame : frame e = f

theorem isTable_or_flags {f g : Nat} (hf : f % 4096 = 0) (hlt : f < 2 ^ 52) (hg : g < 4096)
    (h₀ : g.testBit 0 = true) (h₁ : g.testBit 1 = true) (h₇ : g.testBit 7 = false) :
    IsTable (f ||| g) f where
  present := (testBit_or_flags hf (by decide)).trans h₀
  writable := (testBit_or_flags hf (by decide)).trans h₁
  not_huge := (testBit_or_flags hf (by decide)).trans h₇
  frame := frame_or_flags hf hlt hg

theorem IsTable.or_flags {e f g : Nat} (h : IsTable e f) (hg : g < 4096)
    (h₇ : g.testBit 7 = false) : IsTable (e ||| g) f where
  present := by
    have := h.present
    simp_all [PageTable.present]
  writable := by
    have := h.writable
    simp_all [PageTable.writable]
  not_huge := by
    have := h.not_huge
    simp_all [huge]
  frame := (frame_or_of_lt hg).trans h.frame

/-- Memory holds the tables of `tab`, linked from `root`, and no others. -/
structure Tree (m : ByteMemory) (tab : Shape) (root : Nat) : Prop where
  root_eq : tab 4 0 = some root
  level : ∀ {ℓ k f}, tab ℓ k = some f → 1 ≤ ℓ ∧ ℓ ≤ 4 ∧ (ℓ = 4 → k = 0)
  aligned : ∀ {ℓ k f}, tab ℓ k = some f → f % 4096 = 0 ∧ f < 2 ^ 52
  inj : ∀ {ℓ k ℓ' k' f}, tab ℓ k = some f → tab ℓ' k' = some f → ℓ = ℓ' ∧ k = k'
  parent : ∀ {ℓ k f}, ℓ ≤ 3 → tab ℓ k = some f → ∃ p, tab (ℓ + 1) (k / 512) = some p
  linked : ∀ {ℓ k f p}, tab ℓ k = some f → tab (ℓ + 1) (k / 512) = some p →
    IsTable (entry m p (k % 512)) f
  absent : ∀ {ℓ k p}, 1 ≤ ℓ → tab (ℓ + 1) (k / 512) = some p → tab ℓ k = none →
    present (entry m p (k % 512)) = true → ℓ = 1 ∧ huge (entry m p (k % 512)) = true

/-- The present entry of page number `n`, if its page table exists. -/
def leaf4k (m : ByteMemory) (tab : Shape) (n : Nat) : Option Nat :=
  match tab 1 (n / 512) with
  | none => none
  | some f => if present (entry m f (n % 512)) then some (entry m f (n % 512)) else none

/-- The present huge entry of two-megabyte slot `n`, if its directory exists. -/
def leaf2m (m : ByteMemory) (tab : Shape) (n : Nat) : Option Nat :=
  match tab 2 (n / 512) with
  | none => none
  | some f =>
    if present (entry m f (n % 512)) && huge (entry m f (n % 512)) then
      some (entry m f (n % 512))
    else none

/-- The user bit of the entry that links table `(ℓ, k)`. -/
def linkUser (m : ByteMemory) (tab : Shape) (ℓ k : Nat) : Bool :=
  match tab (ℓ + 1) (k / 512) with
  | none => false
  | some p => user (entry m p (k % 512))

section

variable {m m' : ByteMemory} {tab : Shape} {root : Nat}

theorem Tree.root_at (T : Tree m tab root) {v : Nat} (hv : v < 2 ^ 48) :
    tab 4 (num 4 v / 512) = some root := by
  have hzero : num 4 v / 512 = 0 := by
    rw [← num_succ, num]
    exact Nat.div_eq_of_lt hv
  rw [hzero]
  exact T.root_eq

theorem Tree.not_present (T : Tree m tab root) {ℓ k p : Nat} (hℓ : 1 < ℓ)
    (hp : tab (ℓ + 1) (k / 512) = some p) (h : tab ℓ k = none) :
    present (entry m p (k % 512)) = false := by
  by_contra hpres
  have := (T.absent (by omega) hp h (by simpa using hpres)).1
  omega

theorem linkUser_eq {ℓ v p : Nat} (hp : tab (ℓ + 1) (num (ℓ + 1) v / 512) = some p) :
    linkUser m tab ℓ (num (ℓ + 1) v) = user (entry m p (index (ℓ + 1) v)) := by
  simp only [linkUser, hp, index]

/-- The walk through a huge entry. -/
theorem Tree.walk_huge (T : Tree m tab root) {v e : Nat} (hv : v < 2 ^ 48)
    (h : leaf2m m tab (num 2 v) = some e) :
    walk m root v = some {
      phys := frame e / 2 ^ 21 * 2 ^ 21 + v % 2 ^ 21
      writable := writable e
      user := linkUser m tab 3 (num 4 v) && linkUser m tab 2 (num 3 v) && user e } := by
  unfold leaf2m at h
  split at h
  · cases h
  · rename_i f₂ h₂
    split at h
    · rename_i hleaf
      obtain rfl := Option.some.inj h
      rw [Bool.and_eq_true] at hleaf
      rw [← num_succ] at h₂
      obtain ⟨f₃, h₃⟩ := T.parent (by decide) h₂
      have l₂ := T.linked h₂ h₃
      have l₃ := T.linked (by rwa [← num_succ] at h₃) (T.root_at hv)
      rw [linkUser_eq (T.root_at hv), linkUser_eq h₃]
      simp only [walk, index, l₃.present, l₃.frame, l₃.writable, l₂.present, l₂.frame,
        l₂.not_huge, l₂.writable, hleaf.1, hleaf.2, if_true, Bool.true_and]
      rfl
    · cases h

/-- The walk through a page table, or to a missing entry. -/
theorem Tree.walk_small (T : Tree m tab root) {v : Nat} (hv : v < 2 ^ 48)
    (h : leaf2m m tab (num 2 v) = none) :
    walk m root v = (leaf4k m tab (num 1 v)).map fun e => {
      phys := frame e + v % 2 ^ 12
      writable := writable e
      user := linkUser m tab 3 (num 4 v) && linkUser m tab 2 (num 3 v) &&
        linkUser m tab 1 (num 2 v) && user e } := by
  have hroot := T.root_at hv
  -- descend until a table is missing; below a missing table there is none
  cases h₃ : tab 3 (num 4 v) with
  | none =>
    have hnp := T.not_present (by decide) hroot h₃
    have h₂ : tab 2 (num 3 v) = none := by
      by_contra hne
      obtain ⟨f, hf⟩ := Option.ne_none_iff_exists'.mp hne
      obtain ⟨p, hp⟩ := T.parent (by decide) hf
      rw [← num_succ, h₃] at hp
      cases hp
    have h₁ : tab 1 (num 2 v) = none := by
      by_contra hne
      obtain ⟨f, hf⟩ := Option.ne_none_iff_exists'.mp hne
      obtain ⟨p, hp⟩ := T.parent (by decide) hf
      rw [← num_succ, h₂] at hp
      cases hp
    simp [walk, index, hnp, leaf4k, ← num_succ, h₁]
  | some f₃ =>
    have l₃ := T.linked h₃ hroot
    cases h₂ : tab 2 (num 3 v) with
    | none =>
      have hnp := T.not_present (by decide) (by rwa [← num_succ]) h₂
      have h₁ : tab 1 (num 2 v) = none := by
        by_contra hne
        obtain ⟨f, hf⟩ := Option.ne_none_iff_exists'.mp hne
        obtain ⟨p, hp⟩ := T.parent (by decide) hf
        rw [← num_succ, h₂] at hp
        cases hp
      simp [walk, index, l₃.present, l₃.frame, hnp, leaf4k, ← num_succ, h₁]
    | some f₂ =>
      have l₂ := T.linked h₂ (by rwa [← num_succ])
      cases h₁ : tab 1 (num 2 v) with
      | none =>
        have hnp : present (entry m f₂ (num 2 v % 512)) = false := by
          by_contra hpres
          have hpres' : present (entry m f₂ (num 2 v % 512)) = true := by simpa using hpres
          have hhuge := (T.absent (by decide) (by rwa [← num_succ]) h₁ hpres').2
          simp [leaf2m, ← num_succ, h₂, hpres', hhuge] at h
        simp [walk, index, l₃.present, l₃.frame, l₂.present, l₂.frame, l₂.not_huge, hnp,
          leaf4k, ← num_succ, h₁]
      | some f₁ =>
        have l₁ := T.linked h₁ (by rwa [← num_succ])
        rw [linkUser_eq hroot, linkUser_eq (by rwa [← num_succ]),
          linkUser_eq (by rwa [← num_succ])]
        simp only [walk, index, l₃.present, l₃.frame, l₃.writable, l₂.present, l₂.frame,
          l₂.not_huge, l₂.writable, l₁.present, l₁.frame, l₁.not_huge, l₁.writable, leaf4k,
          ← num_succ, h₁, if_true, if_false, Bool.false_eq_true, Bool.true_and]
        split <;> rfl

/-- Trees with the same maps translate alike, as long as no entry is open to user
mode. -/
theorem Tree.walk_congr {m' : ByteMemory} {tab' : Shape} {root' : Nat} (T : Tree m tab root)
    (T' : Tree m' tab' root') {v : Nat} (hv : v < 2 ^ 48)
    (hslot : leaf2m m' tab' (num 2 v) = leaf2m m tab (num 2 v))
    (hpage : leaf4k m' tab' (num 1 v) = leaf4k m tab (num 1 v))
    (hslotUser : ∀ e, leaf2m m tab (num 2 v) = some e → user e = false)
    (hpageUser : ∀ e, leaf4k m tab (num 1 v) = some e → user e = false) :
    walk m' root' v = walk m root v := by
  cases hs : leaf2m m tab (num 2 v) with
  | some e =>
    rw [T.walk_huge hv hs, T'.walk_huge hv (hslot.trans hs), hslotUser e hs, Bool.and_false,
      Bool.and_false]
  | none =>
    rw [T.walk_small hv hs, T'.walk_small hv (hslot.trans hs), hpage]
    cases hp : leaf4k m tab (num 1 v) with
    | none => rfl
    | some e => simp only [Option.map_some, hpageUser e hp, Bool.and_false]

/-! ## Finding a table -/

/-- The table that the entry with number `k` leads to after `depth` links. -/
def tableAt (m : ByteMemory) (root : Nat) : (depth k : Nat) → Option Nat
  | 0, _ => some root
  | depth + 1, k =>
    (tableAt m root depth (k / 512)).bind fun p =>
      if present (entry m p (k % 512)) then some (frame (entry m p (k % 512))) else none

/-- Following one link of a tree. -/
theorem Tree.follow (T : Tree m tab root) {ℓ k : Nat} (hℓ : 1 ≤ ℓ) (hℓ' : ℓ ≤ 3)
    (hhuge : ℓ = 1 → leaf2m m tab k = none) :
    ((tab (ℓ + 1) (k / 512)).bind fun p =>
      if present (entry m p (k % 512)) then some (frame (entry m p (k % 512))) else none) =
    tab ℓ k := by
  cases hp : tab (ℓ + 1) (k / 512) with
  | none =>
    symm
    by_contra hne
    obtain ⟨f, hf⟩ := Option.ne_none_iff_exists'.mp hne
    obtain ⟨p, hp'⟩ := T.parent hℓ' hf
    rw [hp] at hp'
    cases hp'
  | some p =>
    rw [Option.bind_some]
    cases hf : tab ℓ k with
    | some f =>
      have hlink := T.linked hf hp
      rw [if_pos hlink.present, hlink.frame]
    | none =>
      refine if_neg fun hpres => ?_
      obtain ⟨rfl, hh⟩ := T.absent hℓ hp hf hpres
      have hnone := hhuge rfl
      simp [leaf2m, hp, hpres, hh] at hnone

/-- **A tree's tables are found** by following present entries, away from huge ones. -/
theorem Tree.tableAt_eq (T : Tree m tab root) {ℓ k : Nat} (hℓ : 1 ≤ ℓ) (hℓ' : ℓ ≤ 3)
    (hk : k < 512 ^ (4 - ℓ)) (hhuge : ℓ = 1 → leaf2m m tab k = none) :
    tableAt m root (4 - ℓ) k = tab ℓ k := by
  have hroot : ∀ {k}, k < 512 → tab 4 (k / 512) = some root := fun hk => by
    rw [Nat.div_eq_of_lt hk, T.root_eq]
  have h₃ : ∀ {k}, k < 512 → tableAt m root 1 k = tab 3 k := fun {k} hk => by
    rw [tableAt, tableAt, ← hroot hk]
    exact T.follow (by decide) (by decide) fun h => absurd h (by decide)
  have h₂ : ∀ {k}, k < 512 ^ 2 → tableAt m root 2 k = tab 2 k := fun {k} hk => by
    rw [tableAt, h₃ (by omega)]
    exact T.follow (by decide) (by decide) fun h => absurd h (by decide)
  obtain rfl | rfl | rfl : ℓ = 1 ∨ ℓ = 2 ∨ ℓ = 3 := by omega
  · rw [tableAt, h₂ (by omega)]
    exact T.follow (by decide) (by decide) fun _ => hhuge rfl
  · exact h₂ hk
  · exact h₃ hk

/-! ## The empty tree -/

/-- The shape of a root without tables below it. -/
def Shape.single (f : Nat) : Shape := fun ℓ k => if ℓ = 4 ∧ k = 0 then some f else none

theorem Shape.single_eq_some {f ℓ k g : Nat} (h : Shape.single f ℓ k = some g) :
    (ℓ = 4 ∧ k = 0) ∧ g = f := by
  unfold Shape.single at h
  split_ifs at h with hat
  exact ⟨hat, (Option.some.inj h).symm⟩

/-- A zeroed frame is a tree without tables. -/
theorem tree_single {f : Nat} (hf : f % 4096 = 0 ∧ f < 2 ^ 52)
    (hz : ∀ i < 512, entry m f i = 0) : Tree m (Shape.single f) f where
  root_eq := rfl
  level h := by
    obtain ⟨⟨rfl, rfl⟩, -⟩ := Shape.single_eq_some h
    decide
  aligned h := by
    obtain ⟨-, rfl⟩ := Shape.single_eq_some h
    exact hf
  inj h h' := by
    obtain ⟨⟨rfl, rfl⟩, -⟩ := Shape.single_eq_some h
    obtain ⟨⟨rfl, rfl⟩, -⟩ := Shape.single_eq_some h'
    exact ⟨rfl, rfl⟩
  parent hle h := by
    obtain ⟨⟨rfl, rfl⟩, -⟩ := Shape.single_eq_some h
    omega
  linked h h' := by
    obtain ⟨⟨rfl, -⟩, -⟩ := Shape.single_eq_some h
    obtain ⟨⟨h4, -⟩, -⟩ := Shape.single_eq_some h'
    omega
  absent hℓ h _ hpres := by
    obtain ⟨-, rfl⟩ := Shape.single_eq_some h
    rw [hz _ (Nat.mod_lt _ (by decide))] at hpres
    cases hpres

theorem leaf4k_single (f n : Nat) : leaf4k m (Shape.single f) n = none := rfl

theorem leaf2m_single (f n : Nat) : leaf2m m (Shape.single f) n = none := rfl

/-! ## Edits -/

/-- `m'` is `m` with entry `j` of the table at `p` set to `e`. -/
structure SetEntry (m m' : ByteMemory) (p j e : Nat) : Prop where
  same : entry m' p j = e
  other : ∀ {f i}, f % 4096 = 0 → i < 512 → ¬ (f = p ∧ i = j) → entry m' f i = entry m f i

/-- `m'` is `m` with the frame at `c` zeroed. -/
structure Zeroed (m m' : ByteMemory) (c : Nat) : Prop where
  same : ∀ {i}, i < 512 → entry m' c i = 0
  other : ∀ {f i}, f % 4096 = 0 → i < 512 → f ≠ c → entry m' f i = entry m f i

theorem setEntry_writeU64 (m : ByteMemory) {p j e : Nat} (hp : p % 4096 = 0) (hj : j < 512)
    (he : e < 2 ^ 64) : SetEntry m (m.writeU64 (p + 8 * j) e) p j e := by
  refine ⟨m.readU64_writeU64 _ he, fun {f i} hf hi hne => ?_⟩
  exact ByteMemory.readU64_writeU64_of_apart (by omega)

theorem zeroed_zero (m : ByteMemory) {c : Nat} (hc : c % 4096 = 0) :
    Zeroed m (m.zero c 4096) c := by
  refine ⟨fun {i} hi => ByteMemory.readU64_zero (by omega) (by omega), fun {f i} hf hi hne => ?_⟩
  exact ByteMemory.readU64_zero_of_apart (by omega)

/-- Two memories with the same table entries hold the same tree and maps. -/
structure Agree (m m' : ByteMemory) (tab : Shape) : Prop where
  entry_eq : ∀ {ℓ k f i}, tab ℓ k = some f → i < 512 → entry m' f i = entry m f i

theorem Tree.agree (T : Tree m tab root) (h : Agree m m' tab) : Tree m' tab root where
  root_eq := T.root_eq
  level := T.level
  aligned := T.aligned
  inj := T.inj
  parent := T.parent
  linked hf hp := by
    rw [h.entry_eq hp (Nat.mod_lt _ (by decide))]
    exact T.linked hf hp
  absent hℓ hp hnone := by
    rw [h.entry_eq hp (Nat.mod_lt _ (by decide))]
    exact T.absent hℓ hp hnone

theorem Agree.leaf4k_eq (h : Agree m m' tab) (n : Nat) : leaf4k m' tab n = leaf4k m tab n := by
  unfold leaf4k
  split
  · rfl
  · rename_i f hf
    rw [h.entry_eq hf (Nat.mod_lt _ (by decide))]

theorem Agree.leaf2m_eq (h : Agree m m' tab) (n : Nat) : leaf2m m' tab n = leaf2m m tab n := by
  unfold leaf2m
  split
  · rfl
  · rename_i f hf
    rw [h.entry_eq hf (Nat.mod_lt _ (by decide))]

theorem Agree.linkUser_eq (h : Agree m m' tab) (ℓ k : Nat) :
    linkUser m' tab ℓ k = linkUser m tab ℓ k := by
  unfold linkUser
  split
  · rfl
  · rename_i f hf
    rw [h.entry_eq hf (Nat.mod_lt _ (by decide))]

/-- Stores outside the tables do not disturb them. -/
theorem agree_of_writesOnly {S : Set Nat}
    (hw : ByteMemory.WritesOnly S m m')
    (hS : ∀ {ℓ k f}, tab ℓ k = some f → Disjoint (Set.Ico f (f + 4096)) S) :
    Agree m m' tab where
  entry_eq {ℓ k f i} hf hi := by
    refine hw.readU64 ((hS hf).mono_left fun x hx => ?_)
    rw [Set.mem_Ico] at hx ⊢
    omega

/-- An edit at `(L, K, j)` seen from any table. -/
theorem Tree.entry_set (T : Tree m tab root) {L K p j e : Nat} (hp : tab L K = some p)
    (h : SetEntry m m' p j e) {ℓ k g i : Nat} (hg : tab ℓ k = some g) (hi : i < 512) :
    entry m' g i = if ℓ = L ∧ k = K ∧ i = j then e else entry m g i := by
  split_ifs with hat
  · obtain ⟨rfl, rfl, rfl⟩ := hat
    obtain rfl := Option.some.inj (hg.symm.trans hp)
    exact h.same
  · refine h.other (T.aligned hg).1 hi ?_
    rintro ⟨rfl, rfl⟩
    obtain ⟨rfl, rfl⟩ := T.inj hg hp
    exact hat ⟨rfl, rfl, rfl⟩

/-- Rewriting the entry that links a table, to an entry that links it too. -/
theorem Tree.relabel (T : Tree m tab root) {ℓ k f p e : Nat} (hf : tab ℓ k = some f)
    (hp : tab (ℓ + 1) (k / 512) = some p) (h : SetEntry m m' p (k % 512) e)
    (he : IsTable e f) :
    Tree m' tab root ∧ (∀ n, leaf4k m' tab n = leaf4k m tab n) ∧
      (∀ n, leaf2m m' tab n = leaf2m m tab n) ∧
      (∀ ℓ' k', linkUser m' tab ℓ' k' =
        if ℓ' = ℓ ∧ k' = k then user e else linkUser m tab ℓ' k') := by
  have hlow := (T.level hf).1
  have hold := T.linked hf hp
  have hset := fun {ℓ' k' g i} (hg : tab ℓ' k' = some g) (hi : i < 512) =>
    T.entry_set hp h hg hi
  have hmod : ∀ n, n % 512 < 512 := fun n => Nat.mod_lt _ (by decide)
  refine ⟨⟨T.root_eq, T.level, T.aligned, T.inj, T.parent, ?_, ?_⟩, ?_, ?_, ?_⟩
  · intro ℓ' k' f' p' hf' hp'
    rw [hset hp' (hmod _)]
    split_ifs with hat
    · obtain ⟨rfl, rfl⟩ : ℓ' = ℓ ∧ k' = k := by omega
      obtain rfl := Option.some.inj (hf.symm.trans hf')
      exact he
    · exact T.linked hf' hp'
  · intro ℓ' k' p' hℓ' hp' hnone
    rw [hset hp' (hmod _)]
    split_ifs with hat
    · obtain ⟨rfl, rfl⟩ : ℓ' = ℓ ∧ k' = k := by omega
      rw [hf] at hnone
      cases hnone
    · exact T.absent hℓ' hp' hnone
  · intro n
    unfold leaf4k
    split
    · rfl
    · rename_i g hg
      have hkeep : entry m' g (n % 512) = entry m g (n % 512) := by
        rw [hset hg (hmod _), if_neg (by omega)]
      rw [hkeep]
  · intro n
    unfold leaf2m
    split
    · rfl
    · rename_i g hg
      have hedit := hset hg (hmod n)
      by_cases hat : 2 = ℓ + 1 ∧ n / 512 = k / 512 ∧ n % 512 = k % 512
      -- a directory entry that links a page table is never a huge leaf
      · obtain ⟨rfl, rfl⟩ : ℓ = 1 ∧ n = k := by omega
        obtain rfl := Option.some.inj (hp.symm.trans hg)
        rw [if_pos hat] at hedit
        rw [hedit, he.not_huge, hold.not_huge]
        simp
      · rw [if_neg hat] at hedit
        rw [hedit]
  · intro ℓ' k'
    unfold linkUser
    split
    · rename_i hnone
      split_ifs with hat
      · obtain ⟨rfl, rfl⟩ := hat
        rw [hp] at hnone
        cases hnone
      · rfl
    · rename_i g hg
      rw [hset hg (hmod _)]
      split_ifs with h₁ h₂ h₂
      · rfl
      · exact absurd (by omega) h₂
      · exact absurd ⟨by omega, by rw [h₂.2], by rw [h₂.2]⟩ h₁
      · rfl

/-- Add one table to a shape. -/
def Shape.insert (tab : Shape) (ℓ k c : Nat) : Shape :=
  fun ℓ' k' => if ℓ' = ℓ ∧ k' = k then some c else tab ℓ' k'

theorem Shape.insert_self (tab : Shape) (ℓ k c : Nat) : tab.insert ℓ k c ℓ k = some c := by
  simp [Shape.insert]

theorem Shape.insert_of_ne {tab : Shape} {ℓ k c ℓ' k' : Nat} (h : ¬ (ℓ' = ℓ ∧ k' = k)) :
    tab.insert ℓ k c ℓ' k' = tab ℓ' k' := if_neg h

theorem Shape.insert_of_some {tab : Shape} {ℓ k c ℓ' k' f : Nat} (hnone : tab ℓ k = none)
    (hf : tab ℓ' k' = some f) : tab.insert ℓ k c ℓ' k' = some f := by
  rw [Shape.insert_of_ne, hf]
  rintro ⟨rfl, rfl⟩
  rw [hnone] at hf
  cases hf

theorem Shape.insert_eq_some {tab : Shape} {ℓ k c ℓ' k' f : Nat}
    (h : tab.insert ℓ k c ℓ' k' = some f) :
    (ℓ' = ℓ ∧ k' = k ∧ f = c) ∨ (¬ (ℓ' = ℓ ∧ k' = k) ∧ tab ℓ' k' = some f) := by
  unfold Shape.insert at h
  split_ifs at h with hat
  · exact .inl ⟨hat.1, hat.2, (Option.some.inj h).symm⟩
  · exact .inr ⟨hat, h⟩

theorem present_zero : present 0 = false := rfl
theorem user_zero : user 0 = false := rfl

/-- Linking a fresh zeroed frame as the missing table `(ℓ, k)`. -/
theorem Tree.link (T : Tree m tab root) {m₁ : ByteMemory} {ℓ k p c e : Nat} (hℓ : 1 ≤ ℓ)
    (hp : tab (ℓ + 1) (k / 512) = some p) (hnone : tab ℓ k = none)
    (hnp : present (entry m p (k % 512)) = false) (hfresh : ∀ ℓ' k', tab ℓ' k' ≠ some c)
    (hc : c % 4096 = 0 ∧ c < 2 ^ 52) (hz : Zeroed m m₁ c)
    (hs : SetEntry m₁ m' p (k % 512) e) (he : IsTable e c) :
    Tree m' (tab.insert ℓ k c) root ∧ (∀ n, leaf4k m' (tab.insert ℓ k c) n = leaf4k m tab n) ∧
      (∀ n, leaf2m m' (tab.insert ℓ k c) n = leaf2m m tab n) ∧
      (∀ ℓ' k', linkUser m' (tab.insert ℓ k c) ℓ' k' =
        if ℓ' = ℓ ∧ k' = k then user e else linkUser m tab ℓ' k') := by
  have hmod : ∀ n, n % 512 < 512 := fun n => Nat.mod_lt _ (by decide)
  have hlevel := (T.level hp).2.1
  have hzero : Agree m m₁ tab :=
    ⟨fun {ℓ' k' f i} hf hi => hz.other (T.aligned hf).1 hi fun heq => hfresh ℓ' k' (heq ▸ hf)⟩
  -- old tables see the one new entry, the new table is all zero
  have hold : ∀ {ℓ' k' g i}, tab ℓ' k' = some g → i < 512 →
      entry m' g i = if ℓ' = ℓ + 1 ∧ k' = k / 512 ∧ i = k % 512 then e else entry m g i := by
    intro ℓ' k' g i hg hi
    rw [(T.agree hzero).entry_set hp hs hg hi, hzero.entry_eq hg hi]
  have hnew : ∀ {i}, i < 512 → entry m' c i = 0 := by
    intro i hi
    rw [hs.other hc.1 hi, hz.same hi]
    rintro ⟨rfl, -⟩
    exact hfresh _ _ hp
  have hp' : tab.insert ℓ k c (ℓ + 1) (k / 512) = some p := Shape.insert_of_some hnone hp
  -- no table hangs below the missing one
  have hbelow : ∀ {ℓ' k'}, ℓ' + 1 = ℓ → k' / 512 = k → tab ℓ' k' = none := by
    intro ℓ' k' h₁ h₂
    by_contra hne
    obtain ⟨g, hg⟩ := Option.ne_none_iff_exists'.mp hne
    obtain ⟨q, hq⟩ := T.parent (by omega) hg
    rw [h₁, h₂, hnone] at hq
    cases hq
  refine ⟨⟨Shape.insert_of_some hnone T.root_eq, ?_, ?_, ?_, ?_, ?_, ?_⟩, ?_, ?_, ?_⟩
  · intro ℓ' k' f hf
    rcases Shape.insert_eq_some hf with ⟨rfl, rfl, rfl⟩ | ⟨-, hf⟩
    · exact ⟨hℓ, by omega, by omega⟩
    · exact T.level hf
  · intro ℓ' k' f hf
    rcases Shape.insert_eq_some hf with ⟨rfl, rfl, rfl⟩ | ⟨-, hf⟩
    · exact hc
    · exact T.aligned hf
  · intro ℓ₁ k₁ ℓ₂ k₂ f h₁ h₂
    rcases Shape.insert_eq_some h₁ with ⟨rfl, rfl, rfl⟩ | ⟨-, old₁⟩
    · rcases Shape.insert_eq_some h₂ with ⟨rfl, rfl, -⟩ | ⟨-, old₂⟩
      · exact ⟨rfl, rfl⟩
      · exact absurd old₂ (hfresh _ _)
    · rcases Shape.insert_eq_some h₂ with ⟨rfl, rfl, rfl⟩ | ⟨-, old₂⟩
      · exact absurd old₁ (hfresh _ _)
      · exact T.inj old₁ old₂
  · intro ℓ' k' f hle hf
    rcases Shape.insert_eq_some hf with ⟨rfl, rfl, rfl⟩ | ⟨-, hf⟩
    · exact ⟨p, hp'⟩
    · obtain ⟨q, hq⟩ := T.parent hle hf
      exact ⟨q, Shape.insert_of_some hnone hq⟩
  · intro ℓ' k' f q hf hq
    rcases Shape.insert_eq_some hf with ⟨rfl, rfl, rfl⟩ | ⟨hne, hf⟩
    · obtain rfl := Option.some.inj (hp'.symm.trans hq)
      rw [hold hp (hmod _), if_pos ⟨rfl, rfl, rfl⟩]
      exact he
    · rcases Shape.insert_eq_some hq with ⟨h₁, h₂, -⟩ | ⟨-, hq⟩
      · rw [hbelow h₁ h₂] at hf
        cases hf
      · rw [hold hq (hmod _), if_neg (by omega)]
        exact T.linked hf hq
  · intro ℓ' k' q hℓ' hq hnone' hpres
    have hat : ¬ (ℓ' = ℓ ∧ k' = k) := by
      rintro ⟨rfl, rfl⟩
      rw [Shape.insert_self] at hnone'
      cases hnone'
    rw [Shape.insert_of_ne hat] at hnone'
    rcases Shape.insert_eq_some hq with ⟨h₁, h₂, rfl⟩ | ⟨-, hq⟩
    · rw [hnew (hmod _), present_zero] at hpres
      cases hpres
    · rw [hold hq (hmod _), if_neg (by omega)] at hpres ⊢
      exact T.absent hℓ' hq hnone' hpres
  · intro n
    unfold leaf4k
    by_cases hat : 1 = ℓ ∧ n / 512 = k
    · obtain ⟨rfl, rfl⟩ := hat
      rw [Shape.insert_self, hnone]
      simp only [hnew (hmod n), present_zero]
      rfl
    · rw [Shape.insert_of_ne hat]
      split
      · rfl
      · rename_i g hg
        have hkeep : entry m' g (n % 512) = entry m g (n % 512) := by
          rw [hold hg (hmod _), if_neg (by omega)]
        rw [hkeep]
  · intro n
    unfold leaf2m
    by_cases hat : 2 = ℓ ∧ n / 512 = k
    · obtain ⟨rfl, rfl⟩ := hat
      rw [Shape.insert_self, hnone]
      simp only [hnew (hmod n), present_zero]
      rfl
    · rw [Shape.insert_of_ne hat]
      split
      · rfl
      · rename_i g hg
        have hedit := hold hg (hmod n)
        by_cases hslot : 2 = ℓ + 1 ∧ n / 512 = k / 512 ∧ n % 512 = k % 512
        · obtain ⟨rfl, rfl⟩ : ℓ = 1 ∧ n = k := by omega
          obtain rfl := Option.some.inj (hp.symm.trans hg)
          rw [if_pos hslot] at hedit
          rw [hedit, he.not_huge, hnp]
          simp
        · rw [if_neg hslot] at hedit
          rw [hedit]
  · intro ℓ' k'
    by_cases hat : ℓ' = ℓ ∧ k' = k
    · obtain ⟨rfl, rfl⟩ := hat
      rw [if_pos ⟨rfl, rfl⟩]
      simp only [linkUser, hp', hold hp (hmod _), and_self, if_true]
    · rw [if_neg hat]
      unfold linkUser
      by_cases hpar : ℓ' + 1 = ℓ ∧ k' / 512 = k
      · obtain ⟨rfl, rfl⟩ := hpar
        rw [Shape.insert_self, hnone]
        simp only [hnew (hmod _), user_zero]
      · rw [Shape.insert_of_ne hpar]
        split
        · rfl
        · rename_i g hg
          rw [hold hg (hmod _), if_neg (by omega)]

/-- Setting the entry of one page. -/
theorem Tree.setLeaf (T : Tree m tab root) {n p e : Nat} (hp : tab 1 (n / 512) = some p)
    (h : SetEntry m m' p (n % 512) e) :
    Tree m' tab root ∧
      (∀ n', leaf4k m' tab n' =
        if n' = n then (if present e then some e else none) else leaf4k m tab n') ∧
      (∀ n', leaf2m m' tab n' = leaf2m m tab n') ∧
      (∀ ℓ k, 0 < ℓ → linkUser m' tab ℓ k = linkUser m tab ℓ k) := by
  have hset := fun {ℓ' k' g i} (hg : tab ℓ' k' = some g) (hi : i < 512) =>
    T.entry_set hp h hg hi
  have hmod : ∀ n, n % 512 < 512 := fun n => Nat.mod_lt _ (by decide)
  refine ⟨⟨T.root_eq, T.level, T.aligned, T.inj, T.parent, ?_, ?_⟩, ?_, ?_, ?_⟩
  · intro ℓ k f q hf hq
    have := (T.level hf).1
    rw [hset hq (hmod _), if_neg (by omega)]
    exact T.linked hf hq
  · intro ℓ k q hℓ hq hnone
    rw [hset hq (hmod _), if_neg (by omega)]
    exact T.absent hℓ hq hnone
  · intro n'
    unfold leaf4k
    split
    · rename_i hnone
      rw [if_neg]
      rintro rfl
      rw [hp] at hnone
      cases hnone
    · rename_i g hg
      have hedit := hset hg (hmod n')
      by_cases heq : n' = n
      · subst heq
        rw [if_pos ⟨rfl, rfl, rfl⟩] at hedit
        rw [hedit, if_pos rfl]
      · rw [if_neg (by omega)] at hedit
        rw [hedit, if_neg heq]
  · intro n'
    unfold leaf2m
    split
    · rfl
    · rename_i g hg
      have hkeep : entry m' g (n' % 512) = entry m g (n' % 512) := by
        rw [hset hg (hmod _), if_neg (by omega)]
      rw [hkeep]
  · intro ℓ k hℓ
    unfold linkUser
    split
    · rfl
    · rename_i g hg
      rw [hset hg (hmod _), if_neg (by omega)]

/-- Setting a huge entry in a slot without a page table. -/
theorem Tree.setHuge (T : Tree m tab root) {n p e : Nat} (hp : tab 2 (n / 512) = some p)
    (hnone : tab 1 n = none) (h : SetEntry m m' p (n % 512) e) (hpres : present e = true)
    (hhuge : huge e = true) :
    Tree m' tab root ∧ (∀ n', leaf4k m' tab n' = leaf4k m tab n') ∧
      (∀ n', leaf2m m' tab n' = if n' = n then some e else leaf2m m tab n') ∧
      (∀ ℓ k, ¬ (ℓ = 1 ∧ k = n) → linkUser m' tab ℓ k = linkUser m tab ℓ k) := by
  have hset := fun {ℓ' k' g i} (hg : tab ℓ' k' = some g) (hi : i < 512) =>
    T.entry_set hp h hg hi
  have hmod : ∀ n, n % 512 < 512 := fun n => Nat.mod_lt _ (by decide)
  refine ⟨⟨T.root_eq, T.level, T.aligned, T.inj, T.parent, ?_, ?_⟩, ?_, ?_, ?_⟩
  · intro ℓ k f q hf hq
    rw [hset hq (hmod _), if_neg]
    · exact T.linked hf hq
    · rintro ⟨h₁, h₂, h₃⟩
      obtain ⟨rfl, rfl⟩ : ℓ = 1 ∧ k = n := by omega
      rw [hnone] at hf
      cases hf
  · intro ℓ k q hℓ hq hnone'
    rw [hset hq (hmod _)]
    split_ifs with hat
    · intro _
      exact ⟨by omega, hhuge⟩
    · exact T.absent hℓ hq hnone'
  · intro n'
    unfold leaf4k
    split
    · rfl
    · rename_i g hg
      have hkeep : entry m' g (n' % 512) = entry m g (n' % 512) := by
        rw [hset hg (hmod _), if_neg (by omega)]
      rw [hkeep]
  · intro n'
    unfold leaf2m
    split
    · rename_i hno
      rw [if_neg]
      rintro rfl
      rw [hp] at hno
      cases hno
    · rename_i g hg
      have hedit := hset hg (hmod n')
      by_cases heq : n' = n
      · subst heq
        rw [if_pos ⟨rfl, rfl, rfl⟩] at hedit
        rw [hedit, if_pos rfl, hpres, hhuge]
        rfl
      · rw [if_neg (by omega)] at hedit
        rw [hedit, if_neg heq]
  · intro ℓ k hne
    unfold linkUser
    split
    · rfl
    · rename_i g hg
      rw [hset hg (hmod _), if_neg (by omega)]

end

end PageTable
