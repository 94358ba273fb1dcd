import Mathlib.Data.List.Perm.Subperm
import Mathlib.Order.Interval.Set.LinearOrder
import Mathlib.Order.MinMax
import Mathlib.Tactic.Common

/-!
# Sorted range lists as a normal form for sets

A finite union of half-open ranges is stored as a list in *separated* form:
every range is non-empty and each one ends strictly before the next begins, so
touching ranges are always fused. Three operations keep that form:

- `add`: absorb every range that touches the new one, then insert the result
  in order (`carrier_add`: union);
- `remove`: cut a range out of every member (`carrier_remove`: difference);
- `consume`: cut the front off one member (`carrier_consume`: difference).

Nothing here depends on the element type beyond its linear order.
-/

namespace RangeList

universe u

/-- A half-open range `[start, stop)`. -/
structure Range (α : Type u) where
  start : α
  stop : α
deriving DecidableEq, Repr

variable {α : Type u} [LinearOrder α]

/-- The points of one range. -/
def Range.points (r : Range α) : Set α := Set.Ico r.start r.stop

/-- The set a list of ranges stands for. -/
def carrier (l : List (Range α)) : Set α := {x | ∃ r ∈ l, x ∈ r.points}

/-- Separated form: non-empty ranges, each ending strictly before the next. -/
structure Separated (l : List (Range α)) : Prop where
  nonempty : ∀ r ∈ l, r.start < r.stop
  gap : l.Pairwise fun r s => r.stop < s.start

theorem Range.mem_points {r : Range α} {x : α} :
    x ∈ r.points ↔ r.start ≤ x ∧ x < r.stop := Iff.rfl

theorem mem_carrier {l : List (Range α)} {x : α} :
    x ∈ carrier l ↔ ∃ r ∈ l, r.start ≤ x ∧ x < r.stop := Iff.rfl

@[simp] theorem carrier_nil : carrier ([] : List (Range α)) = ∅ := by
  ext x
  simp [carrier]

@[simp] theorem carrier_cons (r : Range α) (l : List (Range α)) :
    carrier (r :: l) = r.points ∪ carrier l := by
  ext x
  simp [carrier]

@[simp] theorem carrier_append (l₁ l₂ : List (Range α)) :
    carrier (l₁ ++ l₂) = carrier l₁ ∪ carrier l₂ := by
  ext x
  simp only [carrier, List.mem_append, Set.mem_ofPred_eq, Set.mem_union]
  constructor
  · rintro ⟨r, h | h, hx⟩
    · exact .inl ⟨r, h, hx⟩
    · exact .inr ⟨r, h, hx⟩
  · rintro (⟨r, h, hx⟩ | ⟨r, h, hx⟩)
    · exact ⟨r, .inl h, hx⟩
    · exact ⟨r, .inr h, hx⟩

theorem separated_nil : Separated ([] : List (Range α)) :=
  ⟨by simp, List.Pairwise.nil⟩

theorem separated_cons {r : Range α} {l : List (Range α)} :
    Separated (r :: l) ↔
      r.start < r.stop ∧ (∀ s ∈ l, r.stop < s.start) ∧ Separated l := by
  constructor
  · rintro ⟨hne, hgap⟩
    rw [List.pairwise_cons] at hgap
    exact ⟨hne r (by simp), hgap.1, fun s hs => hne s (by simp [hs]), hgap.2⟩
  · rintro ⟨hr, hl, hne, hgap⟩
    refine ⟨?_, List.pairwise_cons.mpr ⟨hl, hgap⟩⟩
    intro s hs
    rcases List.mem_cons.mp hs with rfl | hs
    · exact hr
    · exact hne s hs

theorem separated_append {l₁ l₂ : List (Range α)} :
    Separated (l₁ ++ l₂) ↔
      Separated l₁ ∧ Separated l₂ ∧ ∀ r ∈ l₁, ∀ s ∈ l₂, r.stop < s.start := by
  constructor
  · rintro ⟨hne, hgap⟩
    rw [List.pairwise_append] at hgap
    exact ⟨⟨fun r h => hne r (by simp [h]), hgap.1⟩,
      ⟨fun r h => hne r (by simp [h]), hgap.2.1⟩, hgap.2.2⟩
  · rintro ⟨h₁, h₂, h⟩
    refine ⟨?_, List.pairwise_append.mpr ⟨h₁.gap, h₂.gap, h⟩⟩
    intro r hr
    rcases List.mem_append.mp hr with hr | hr
    · exact h₁.nonempty r hr
    · exact h₂.nonempty r hr

/-! ## Adding a range -/

/-- One left-to-right pass: ranges that touch the accumulated `[s, e)` are
fused into it, the others are kept. Returns the kept ranges and the fused
range. -/
def absorb (s e : α) : List (Range α) → List (Range α) × Range α
  | [] => ([], ⟨s, e⟩)
  | r :: l =>
    if r.stop < s ∨ e < r.start then
      (r :: (absorb s e l).1, (absorb s e l).2)
    else absorb (min s r.start) (max e r.stop) l

/-- Insert before the first range that does not start below `r`. -/
def insertByStart (r : Range α) : List (Range α) → List (Range α)
  | [] => [r]
  | x :: l => if x.start < r.start then x :: insertByStart r l else r :: x :: l

/-- Union with `[s, e)`. -/
def add (s e : α) (l : List (Range α)) : List (Range α) :=
  insertByStart (absorb s e l).2 (absorb s e l).1

theorem mem_insertByStart {r x : Range α} {l : List (Range α)} :
    x ∈ insertByStart r l ↔ x = r ∨ x ∈ l := by
  induction l with
  | nil => simp [insertByStart]
  | cons y l ih =>
    rw [insertByStart]
    split
    · simp only [List.mem_cons, ih]
      tauto
    · simp

theorem length_insertByStart (r : Range α) (l : List (Range α)) :
    (insertByStart r l).length = l.length + 1 := by
  induction l with
  | nil => rfl
  | cons y l ih =>
    rw [insertByStart]
    split
    · simp [ih]
    · simp

theorem carrier_insertByStart (r : Range α) (l : List (Range α)) :
    carrier (insertByStart r l) = r.points ∪ carrier l := by
  ext x
  simp only [carrier, mem_insertByStart, Set.mem_ofPred_eq, Set.mem_union]
  constructor
  · rintro ⟨y, rfl | hy, hx⟩
    · exact .inl hx
    · exact .inr ⟨y, hy, hx⟩
  · rintro (hx | ⟨y, hy, hx⟩)
    · exact ⟨r, .inl rfl, hx⟩
    · exact ⟨y, .inr hy, hx⟩

/-- Inserting a range apart from all others keeps the list separated. -/
theorem separated_insertByStart {r : Range α} {l : List (Range α)}
    (hr : r.start < r.stop) (hl : Separated l)
    (hapart : ∀ x ∈ l, x.stop < r.start ∨ r.stop < x.start) :
    Separated (insertByStart r l) := by
  induction l with
  | nil => exact separated_cons.mpr ⟨hr, by simp, separated_nil⟩
  | cons y l ih =>
    obtain ⟨hy, hyl, hl'⟩ := separated_cons.mp hl
    rw [insertByStart]
    split
    · rename_i hlt
      refine separated_cons.mpr ⟨hy, ?_, ih hl' fun x hx => hapart x (by simp [hx])⟩
      intro x hx
      rcases mem_insertByStart.mp hx with rfl | hx
      · rcases hapart y (by simp) with h | h
        · exact h
        · exact absurd (hr.trans h) (not_lt.mpr hlt.le)
      · exact hyl x hx
    · rename_i hge
      have hry : r.stop < y.start := by
        rcases hapart y (by simp) with h | h
        · exact absurd (hy.trans h) hge
        · exact h
      refine separated_cons.mpr ⟨hr, ?_, hl⟩
      intro x hx
      rcases List.mem_cons.mp hx with rfl | hx
      · exact hry
      · exact hry.trans (hy.trans (hyl x hx))

/-- The pass keeps a sublist of the ranges. -/
theorem absorb_sublist (s e : α) (l : List (Range α)) :
    ((absorb s e l).1).Sublist l := by
  induction l generalizing s e with
  | nil => exact List.Sublist.slnil
  | cons r l ih =>
    rw [absorb]
    split
    · exact (ih s e).cons_cons r
    · exact (ih _ _).cons r

/-- Nothing is fused when nothing touches. -/
theorem length_absorb_eq_iff {s e : α} {l : List (Range α)} :
    (absorb s e l).1.length = l.length ↔ ∀ r ∈ l, r.stop < s ∨ e < r.start := by
  induction l with
  | nil => simp [absorb]
  | cons r l ih =>
    rw [absorb]
    split_ifs with hapart
    · rw [List.length_cons, List.length_cons, Nat.add_right_cancel_iff, ih, List.forall_mem_cons]
      exact (and_iff_right hapart).symm
    · have hle := (absorb_sublist (min s r.start) (max e r.stop) l).length_le
      constructor
      · intro h
        rw [List.length_cons] at h
        omega
      · exact fun h => absurd (h r List.mem_cons_self) hapart

theorem Separated.sublist {l₁ l₂ : List (Range α)} (h : Separated l₂)
    (hs : l₁.Sublist l₂) : Separated l₁ :=
  ⟨fun r hr => h.nonempty r (hs.subset hr), h.gap.sublist hs⟩

/-- The fused range only grows. -/
theorem absorb_start_le (s e : α) (l : List (Range α)) :
    (absorb s e l).2.start ≤ s := by
  induction l generalizing s e with
  | nil => exact le_rfl
  | cons r l ih =>
    rw [absorb]
    split
    · exact ih s e
    · exact (ih _ _).trans (min_le_left _ _)

theorem le_absorb_stop (s e : α) (l : List (Range α)) :
    e ≤ (absorb s e l).2.stop := by
  induction l generalizing s e with
  | nil => exact le_rfl
  | cons r l ih =>
    rw [absorb]
    split
    · exact ih s e
    · exact (le_max_left _ _).trans (ih _ _)

/-- A lower bound of `s` and of every range bounds the fused range. -/
theorem lt_absorb_start {a s e : α} {l : List (Range α)} (hs : a < s)
    (hl : ∀ r ∈ l, a < r.start) : a < (absorb s e l).2.start := by
  induction l generalizing s e with
  | nil => exact hs
  | cons r l ih =>
    have hl' : ∀ r ∈ l, a < r.start := fun x hx => hl x (by simp [hx])
    rw [absorb]
    split
    · exact ih hs hl'
    · exact ih (lt_min hs (hl r (by simp))) hl'

/-- Ranges that all start beyond `e` are kept as they are. -/
theorem absorb_of_lt {s e : α} {l : List (Range α)} (hl : ∀ r ∈ l, e < r.start) :
    absorb s e l = (l, ⟨s, e⟩) := by
  induction l with
  | nil => rfl
  | cons r l ih =>
    rw [absorb, if_pos (.inr (hl r (by simp))), ih fun x hx => hl x (by simp [hx])]

/-- Every kept range is apart from the fused one: the ranges to its left were
passed before anything fused, those to its right start beyond its end. -/
theorem absorb_apart {s e : α} {l : List (Range α)} (hl : Separated l) (hse : s < e) :
    ∀ x ∈ (absorb s e l).1,
      x.stop < (absorb s e l).2.start ∨ (absorb s e l).2.stop < x.start := by
  induction l generalizing s e with
  | nil => simp [absorb]
  | cons r l ih =>
    obtain ⟨hr, hrl, hl'⟩ := separated_cons.mp hl
    rw [absorb]
    split
    · rename_i happart
      intro x hx
      rcases List.mem_cons.mp hx with rfl | hx
      · rcases happart with h | h
        · exact .inl (lt_absorb_start h hrl)
        · have hkeep := absorb_of_lt (s := s) (e := e) (l := l)
            fun y hy => h.trans (hr.trans (hrl y hy))
          rw [hkeep]
          exact .inr h
      · exact ih hl' hse x hx
    · refine ih hl' ?_
      exact (min_le_left _ _).trans_lt (hse.trans_le (le_max_left _ _))

/-- The pass loses and gains no point besides `[s, e)`. -/
theorem carrier_absorb {s e : α} {l : List (Range α)} (hl : ∀ r ∈ l, r.start < r.stop)
    (hse : s < e) :
    (absorb s e l).2.points ∪ carrier (absorb s e l).1 = Set.Ico s e ∪ carrier l := by
  induction l generalizing s e with
  | nil => rfl
  | cons r l ih =>
    have hl' : ∀ r ∈ l, r.start < r.stop := fun x hx => hl x (by simp [hx])
    rw [absorb]
    split
    · rw [carrier_cons, carrier_cons, Set.union_left_comm, ih hl' hse, Set.union_left_comm]
    · rename_i htouch
      rw [not_or, not_lt, not_lt] at htouch
      have hr := hl r (by simp)
      have hfuse : Set.Ico (min s r.start) (max e r.stop) = Set.Ico s e ∪ r.points := by
        rw [Range.points, Set.Ico_union_Ico' htouch.2 htouch.1]
      rw [ih hl' ((min_le_left _ _).trans_lt (hse.trans_le (le_max_left _ _))), hfuse,
        carrier_cons, Set.union_assoc]

/-- `add` keeps the separated form. -/
theorem separated_add {s e : α} {l : List (Range α)} (hl : Separated l) (hse : s < e) :
    Separated (add s e l) := by
  refine separated_insertByStart ?_ (hl.sublist (absorb_sublist s e l)) (absorb_apart hl hse)
  exact (absorb_start_le s e l).trans_lt (hse.trans_le (le_absorb_stop s e l))

/-- `add` is union. -/
theorem carrier_add {s e : α} {l : List (Range α)} (hl : Separated l) (hse : s < e) :
    carrier (add s e l) = carrier l ∪ Set.Ico s e := by
  rw [add, carrier_insertByStart, carrier_absorb hl.nonempty hse, Set.union_comm]

theorem absorb_bounds {p q : α → Prop} {s e : α} {l : List (Range α)} (hs : p s) (he : q e)
    (hl : ∀ r ∈ l, p r.start ∧ q r.stop) :
    p (absorb s e l).2.start ∧ q (absorb s e l).2.stop := by
  induction l generalizing s e with
  | nil => exact ⟨hs, he⟩
  | cons r l ih =>
    obtain ⟨hr, hl'⟩ := List.forall_mem_cons.mp hl
    rw [absorb]
    split
    · exact ih hs he hl'
    · refine ih ?_ ?_ hl'
      · rcases min_choice s r.start with h | h
        · rwa [h]
        · rw [h]
          exact hr.1
      · rcases max_choice e r.stop with h | h
        · rwa [h]
        · rw [h]
          exact hr.2

/-- The bounds of an added list are bounds of its parts. -/
theorem forall_mem_add {p q : α → Prop} {s e : α} {l : List (Range α)} (hs : p s) (he : q e)
    (hl : ∀ r ∈ l, p r.start ∧ q r.stop) : ∀ r ∈ add s e l, p r.start ∧ q r.stop := by
  intro r hr
  rcases mem_insertByStart.mp hr with rfl | hr
  · exact absorb_bounds hs he hl
  · exact hl r ((absorb_sublist s e l).subset hr)

/-! ## Removing a range -/

/-- What is left of one range after cutting `[s, e)` out of it. -/
def cut (s e : α) (r : Range α) : List (Range α) :=
  if r.stop ≤ s ∨ e ≤ r.start then [r]
  else if s ≤ r.start ∧ r.stop ≤ e then []
  else if s ≤ r.start then [⟨e, r.stop⟩]
  else if r.stop ≤ e then [⟨r.start, s⟩]
  else [⟨r.start, s⟩, ⟨e, r.stop⟩]

/-- Difference with `[s, e)`. -/
def remove (s e : α) (l : List (Range α)) : List (Range α) := l.flatMap (cut s e)

@[simp] theorem remove_cons (s e : α) (r : Range α) (l : List (Range α)) :
    remove s e (r :: l) = cut s e r ++ remove s e l := rfl

/-- The pieces of a range are non-empty, separated and inside it. -/
theorem separated_cut {s e : α} {r : Range α} (hr : r.start < r.stop) (hse : s < e) :
    Separated (cut s e r) ∧ ∀ x ∈ cut s e r, r.start ≤ x.start ∧ x.stop ≤ r.stop := by
  unfold cut
  split_ifs with h₁ h₂ h₃ h₄
  · exact ⟨separated_cons.mpr ⟨hr, by simp, separated_nil⟩, by simp⟩
  · exact ⟨separated_nil, by simp⟩
  · have : e < r.stop := lt_of_not_ge fun h => h₂ ⟨h₃, h⟩
    rw [not_or, not_le, not_le] at h₁
    exact ⟨separated_cons.mpr ⟨this, by simp, separated_nil⟩, by simp [h₁.2.le]⟩
  · rw [not_or, not_le, not_le] at h₁
    rw [not_le] at h₃
    exact ⟨separated_cons.mpr ⟨h₃, by simp, separated_nil⟩, by simp [h₁.1.le]⟩
  · rw [not_or, not_le, not_le] at h₁
    rw [not_le] at h₃ h₄
    refine ⟨separated_cons.mpr ⟨h₃, by simp [hse], ?_⟩, by simp [h₁.1.le, h₁.2.le]⟩
    exact separated_cons.mpr ⟨h₄, by simp, separated_nil⟩

theorem carrier_cut (s e : α) (r : Range α) :
    carrier (cut s e r) = r.points \ Set.Ico s e := by
  ext x
  unfold cut
  split_ifs with h₁ h₂ h₃ h₄ <;>
    simp only [carrier_cons, carrier_nil, Set.union_empty, Set.mem_empty_iff_false,
      Set.mem_union, Set.mem_sdiff, Set.mem_Ico, Range.mem_points] <;> grind

theorem carrier_remove (s e : α) (l : List (Range α)) :
    carrier (remove s e l) = carrier l \ Set.Ico s e := by
  induction l with
  | nil => simp [remove]
  | cons r l ih =>
    rw [remove_cons, carrier_append, carrier_cut, ih, carrier_cons, Set.union_sdiff_distrib]

/-- A hole makes at most two pieces of every range. -/
theorem length_remove_le (s e : α) (l : List (Range α)) :
    (remove s e l).length ≤ 2 * l.length := by
  induction l with
  | nil => exact Nat.zero_le _
  | cons r l ih =>
    have hcut : (cut s e r).length ≤ 2 := by
      unfold cut
      split_ifs <;> simp
    rw [remove_cons, List.length_append, List.length_cons]
    omega

/-- Ranges that all start at `e` or later are kept as they are. -/
theorem remove_of_le {s e : α} {l : List (Range α)} (hl : ∀ r ∈ l, e ≤ r.start) :
    remove s e l = l := by
  induction l with
  | nil => rfl
  | cons r l ih =>
    rw [remove_cons, cut, if_pos (.inr (hl r List.mem_cons_self)),
      ih fun x hx => hl x (List.mem_cons_of_mem r hx)]
    rfl

/-- `remove` keeps the separated form. -/
theorem separated_remove {s e : α} {l : List (Range α)} (hl : Separated l) (hse : s < e) :
    Separated (remove s e l) := by
  induction l with
  | nil => exact separated_nil
  | cons r l ih =>
    obtain ⟨hr, hrl, hl'⟩ := separated_cons.mp hl
    obtain ⟨hcut, hin⟩ := separated_cut (s := s) (e := e) hr hse
    refine separated_append.mpr ⟨hcut, ih hl', ?_⟩
    intro x hx y hy
    obtain ⟨z, hz, hyz⟩ := List.mem_flatMap.mp hy
    have hy' := (separated_cut (s := s) (e := e) (hl'.nonempty z hz) hse).2 y hyz
    exact (hin x hx).2.trans_lt ((hrl z hz).trans_le hy'.1)

/-- The bounds of what `remove` leaves are bounds of the list or of the hole. -/
theorem forall_mem_remove {p q : α → Prop} {s e : α} {l : List (Range α)} (hs : q s) (he : p e)
    (hl : ∀ r ∈ l, p r.start ∧ q r.stop) : ∀ r ∈ remove s e l, p r.start ∧ q r.stop := by
  intro r hr
  obtain ⟨x, hx, hr⟩ := List.mem_flatMap.mp hr
  have hxb := hl x hx
  unfold cut at hr
  split_ifs at hr <;> simp only [List.mem_cons, List.not_mem_nil, or_false] at hr
  · exact hr ▸ hxb
  · exact hr ▸ ⟨he, hxb.2⟩
  · exact hr ▸ ⟨hxb.1, hs⟩
  · rcases hr with rfl | rfl
    · exact ⟨hxb.1, hs⟩
    · exact ⟨he, hxb.2⟩

/-! ## Consuming the front of a range -/

/-- What is left of `r` after its front up to `c` is taken: nothing when `c`
reaches the end. -/
def consume (c : α) (r : Range α) : List (Range α) :=
  if c < r.stop then [⟨c, r.stop⟩] else []

theorem consume_of_lt {c : α} {r : Range α} (h : c < r.stop) :
    consume c r = [⟨c, r.stop⟩] := if_pos h

theorem consume_of_le {c : α} {r : Range α} (h : r.stop ≤ c) : consume c r = [] :=
  if_neg (not_lt.mpr h)

theorem separated_consume {c : α} {r : Range α} {l₁ l₂ : List (Range α)}
    (h : Separated (l₁ ++ r :: l₂)) (hc : r.start ≤ c) :
    Separated (l₁ ++ (consume c r ++ l₂)) := by
  obtain ⟨h₁, hr, h₁r⟩ := separated_append.mp h
  obtain ⟨-, hr₂, h₂⟩ := separated_cons.mp hr
  unfold consume
  split_ifs with hlt
  · refine separated_append.mpr ⟨h₁, separated_cons.mpr ⟨hlt, hr₂, h₂⟩, ?_⟩
    intro x hx y hy
    rcases List.mem_cons.mp hy with rfl | hy
    · exact (h₁r x hx r (by simp)).trans_le hc
    · exact h₁r x hx y (List.mem_cons_of_mem r hy)
  · exact separated_append.mpr ⟨h₁, h₂,
      fun x hx y hy => h₁r x hx y (List.mem_cons_of_mem r hy)⟩

theorem carrier_consume {c : α} {r : Range α} {l₁ l₂ : List (Range α)}
    (h : Separated (l₁ ++ r :: l₂)) (hrc : r.start ≤ c) (hc : c ≤ r.stop) :
    carrier (l₁ ++ (consume c r ++ l₂)) = carrier (l₁ ++ r :: l₂) \ Set.Ico r.start c := by
  obtain ⟨h₁, hr, h₁r⟩ := separated_append.mp h
  obtain ⟨hne, hr₂, h₂⟩ := separated_cons.mp hr
  have hmid : carrier (consume c r) = r.points \ Set.Ico r.start c := by
    ext x
    unfold consume
    split_ifs with hlt <;>
      simp only [carrier_cons, carrier_nil, Set.union_empty, Set.mem_empty_iff_false,
        Set.mem_sdiff, Set.mem_Ico, Range.mem_points] <;> grind
  have hleft : carrier l₁ \ Set.Ico r.start c = carrier l₁ := by
    rw [sdiff_eq_left, Set.disjoint_left]
    rintro x ⟨y, hy, hx⟩ hx'
    exact absurd (hx.2.trans (h₁r y hy r (by simp))) (not_lt.mpr hx'.1)
  have hright : carrier l₂ \ Set.Ico r.start c = carrier l₂ := by
    rw [sdiff_eq_left, Set.disjoint_left]
    rintro x ⟨y, hy, hx⟩ hx'
    exact absurd (hx'.2.trans_le (hc.trans ((hr₂ y hy).le.trans hx.1))) (lt_irrefl x)
  rw [carrier_append, carrier_append, carrier_append, carrier_cons, hmid,
    Set.union_sdiff_distrib, Set.union_sdiff_distrib, hleft, hright]

theorem forall_mem_consume {p q : α → Prop} {c : α} {r : Range α} {l₁ l₂ : List (Range α)}
    (hc : p c) (hl : ∀ x ∈ l₁ ++ r :: l₂, p x.start ∧ q x.stop) :
    ∀ x ∈ l₁ ++ (consume c r ++ l₂), p x.start ∧ q x.stop := by
  intro x hx
  rcases List.mem_append.mp hx with hx | hx
  · exact hl x (by simp [hx])
  · rcases List.mem_append.mp hx with hx | hx
    · unfold consume at hx
      split_ifs at hx with hlt
      · obtain rfl := List.mem_singleton.mp hx
        exact ⟨hc, (hl r (by simp)).2⟩
      · cases hx
    · exact hl x (by simp [hx])

/-! ## Intervals inside the set -/

/-- A range stops where the set does. -/
theorem Separated.stop_notMem_carrier {l : List (Range α)} (h : Separated l) {r : Range α}
    (hr : r ∈ l) : r.stop ∉ carrier l := by
  obtain ⟨l₁, l₂, rfl⟩ := List.append_of_mem hr
  obtain ⟨-, hrest, hbefore⟩ := separated_append.mp h
  obtain ⟨hne, hafter, -⟩ := separated_cons.mp hrest
  -- A range that holds the end of `r` would be before it, be `r` itself, or be after it.
  rintro ⟨x, hx, hlo, hhi⟩
  rcases List.mem_append.mp hx with hx | hx
  · exact absurd (hhi.trans (hbefore x hx r List.mem_cons_self)) (not_lt.mpr hne.le)
  · rcases List.mem_cons.mp hx with rfl | hx
    · exact lt_irrefl _ hhi
    · exact absurd hlo (not_le.mpr (hafter x hx))

/-- An interval of a separated set lies inside one of its ranges. -/
theorem Separated.exists_range_of_subset {l : List (Range α)} (h : Separated l) {s e : α}
    (hse : s < e) (hsub : Set.Ico s e ⊆ carrier l) : ∃ r ∈ l, r.start ≤ s ∧ e ≤ r.stop := by
  obtain ⟨r, hr, hlo, hhi⟩ := hsub ⟨le_rfl, hse⟩
  refine ⟨r, hr, hlo, ?_⟩
  by_contra hpast
  rw [not_le] at hpast
  exact h.stop_notMem_carrier hr (hsub ⟨hhi.le, hpast⟩)

/-! ## How many ranges a set needs -/

/-- The set is the union of at most `n` ranges. -/
def CoveredBy (n : Nat) (S : Set α) : Prop := ∃ l : List (Range α), l.length ≤ n ∧ carrier l = S

/-- **Separated form is the shortest**: a range of another list cannot hold the starts of two
separated ranges, because it would hold the gap between them. -/
theorem Separated.length_le {l l' : List (Range α)} (h : Separated l)
    (hcarrier : carrier l' = carrier l) : l.length ≤ l'.length := by
  have hcover : ∀ r, ∃ r', r ∈ l → r' ∈ l' ∧ r.start ∈ r'.points := by
    intro r
    by_cases hr : r ∈ l
    · have hmem : r.start ∈ carrier l' := hcarrier ▸ ⟨r, hr, le_rfl, h.nonempty r hr⟩
      obtain ⟨r', hr', hin⟩ := hmem
      exact ⟨r', fun _ => ⟨hr', hin⟩⟩
    · exact ⟨r, fun hin => absurd hin hr⟩
  choose f hf using hcover
  have hdistinct : (l.map f).Nodup := by
    refine List.pairwise_map.mpr (h.gap.imp_of_mem fun {r s} hr hs hgap heq => ?_)
    obtain ⟨hr', hlo, -⟩ := hf r hr
    obtain ⟨-, -, hhi⟩ := hf s hs
    refine h.stop_notMem_carrier hr (hcarrier ▸ ⟨f r, hr', ?_, ?_⟩)
    · exact hlo.trans (h.nonempty r hr).le
    · exact hgap.trans (heq ▸ hhi)
  have hsub : l.map f ⊆ l' := by
    intro x hx
    obtain ⟨r, hr, rfl⟩ := List.mem_map.mp hx
    exact (hf r hr).1
  have hle := (List.subperm_of_subset hdistinct hsub).length_le
  rwa [List.length_map] at hle

theorem Separated.coveredBy_iff {l : List (Range α)} (h : Separated l) {n : Nat} :
    CoveredBy n (carrier l) ↔ l.length ≤ n :=
  ⟨fun ⟨_, hlen, hcarrier⟩ => (h.length_le hcarrier).trans hlen, fun hlen => ⟨l, hlen, rfl⟩⟩

/-! ## Uniqueness -/

/-- The first range starts at the least point. -/
theorem Separated.start_le {r : Range α} {l : List (Range α)} (h : Separated (r :: l)) {x : α}
    (hx : x ∈ carrier (r :: l)) : r.start ≤ x := by
  obtain ⟨hr, hl, -⟩ := separated_cons.mp h
  obtain ⟨s, hs, hlo, -⟩ := hx
  rcases List.mem_cons.mp hs with rfl | hs
  · exact hlo
  · exact (hr.trans (hl s hs)).le.trans hlo

/-- The first range stops where the set does. -/
theorem Separated.stop_notMem {r : Range α} {l : List (Range α)} (h : Separated (r :: l)) :
    r.stop ∉ carrier (r :: l) := by
  obtain ⟨-, hl, -⟩ := separated_cons.mp h
  rintro ⟨s, hs, hlo, hhi⟩
  rcases List.mem_cons.mp hs with rfl | hs
  · exact lt_irrefl _ hhi
  · exact absurd hlo (not_le.mpr (hl s hs))

/-- The set without its first range. -/
theorem Separated.carrier_tail {r : Range α} {l : List (Range α)} (h : Separated (r :: l)) :
    carrier l = carrier (r :: l) \ r.points := by
  obtain ⟨-, hl, -⟩ := separated_cons.mp h
  rw [carrier_cons, Set.union_sdiff_left, eq_comm, sdiff_eq_left]
  rw [Set.disjoint_left]
  rintro x ⟨s, hs, hlo, -⟩ ⟨-, hhi⟩
  exact absurd (hhi.trans (hl s hs)) (not_lt.mpr hlo)

/-- **Separated form is unique**: the list is determined by its set. -/
theorem Separated.unique {l l' : List (Range α)} (h : Separated l) (h' : Separated l')
    (hcarrier : carrier l = carrier l') : l = l' := by
  have hnil : ∀ {r : Range α} {l : List (Range α)}, Separated (r :: l) →
      carrier (r :: l) ≠ ∅ := by
    intro r l hsep hempty
    have hmem : r.start ∈ carrier (r :: l) :=
      ⟨r, List.mem_cons_self, le_rfl, (separated_cons.mp hsep).1⟩
    rw [hempty] at hmem
    exact hmem
  induction l generalizing l' with
  | nil =>
    cases l' with
    | nil => rfl
    | cons r' l' => exact absurd (hcarrier.symm.trans carrier_nil) (hnil h')
  | cons r l ih =>
    cases l' with
    | nil => exact absurd (hcarrier.trans carrier_nil) (hnil h)
    | cons r' l' =>
      have hr := (separated_cons.mp h).1
      have hr' := (separated_cons.mp h').1
      have hmem : r.start ∈ carrier (r' :: l') :=
        hcarrier ▸ ⟨r, List.mem_cons_self, le_rfl, hr⟩
      have hmem' : r'.start ∈ carrier (r :: l) :=
        hcarrier ▸ ⟨r', List.mem_cons_self, le_rfl, hr'⟩
      have hstart : r.start = r'.start := le_antisymm (h.start_le hmem') (h'.start_le hmem)
      have hstop : r.stop = r'.stop := by
        rcases lt_trichotomy r.stop r'.stop with hlt | heq | hgt
        · exact absurd (hcarrier ▸ ⟨r', List.mem_cons_self, hstart ▸ hr.le, hlt⟩) h.stop_notMem
        · exact heq
        · exact absurd (hcarrier ▸ ⟨r, List.mem_cons_self, hstart ▸ hr'.le, hgt⟩) h'.stop_notMem
      obtain rfl : r = r' := by
        cases r
        cases r'
        simp_all
      have htail : carrier l = carrier l' := by
        rw [h.carrier_tail, h'.carrier_tail, hcarrier]
      rw [ih (separated_cons.mp h).2.2 (separated_cons.mp h').2.2 htail]

end RangeList
