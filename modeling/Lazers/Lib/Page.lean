import Mathlib.Tactic.Common

/-!
# A page of lines

A page is written line by line: what is written goes behind the last line with text, which is where
the cursor is, and below the cursor there is nothing yet. A line that is full is left only when more
is written (`start`), so that a full line and the empty one after it are two states of one place.
`index` counts places in the order of reading, and does not tell the two apart.

* `erase_put`: to erase is the inverse of to write.
* `drop`: a page without its first lines is what a screen shows that has scrolled. Writing and
  erasing do not depend on what was dropped.
-/

universe u

@[ext] structure Page (α : Type u) where
  line : Nat → List α
  row : Nat
  below : ∀ r, row < r → line r = []

namespace Page

variable {α : Type u} {p : Page α} {columns n r : Nat} {a : α}

/-! ## Writing and erasing -/

def empty : Page α := ⟨fun _ => [], 0, fun _ _ => rfl⟩

/-- The column of the cursor. -/
def column (p : Page α) : Nat := (p.line p.row).length

def cell (p : Page α) (row column : Nat) : Option α := (p.line row)[column]?

def newLine (p : Page α) : Page α where
  line := p.line
  row := p.row + 1
  below := fun r hr => p.below r (Nat.lt_of_succ_lt hr)

def put (p : Page α) (a : α) : Page α where
  line := fun r => if r = p.row then p.line r ++ [a] else p.line r
  row := p.row
  below := fun r hr => (if_neg (by omega)).trans (p.below r hr)

/-- Where the next `a` is written. -/
def start (columns : Nat) (p : Page α) : Page α := if columns ≤ p.column then p.newLine else p

def write (columns : Nat) (p : Page α) (a : α) : Page α := (p.start columns).put a

/-- The last of some lines with text. -/
def lastOf (line : Nat → List α) : Nat → Option Nat
  | 0 => none
  | r + 1 => if line r = [] then lastOf line r else some r

/-- The last line with text. -/
def last (p : Page α) : Option Nat := lastOf p.line (p.row + 1)

def eraseAt (p : Page α) (r : Nat) : Page α where
  line := fun i => if i < r then p.line i else if i = r then (p.line r).dropLast else []
  row := r
  below := fun i hi => (if_neg (by omega)).trans (if_neg (by omega))

/-- Take away what was written last. -/
def erase (p : Page α) : Page α :=
  match p.last with
  | none => p
  | some r => p.eraseAt r

/-- The page without its first `n` lines. -/
def drop (n : Nat) (p : Page α) : Page α where
  line := fun r => p.line (r + n)
  row := p.row - n
  below := fun r hr => p.below (r + n) (by omega)

/-! ## The last line with text -/

theorem lastOf_eq_some_iff {line : Nat → List α} :
    lastOf line n = some r ↔ r < n ∧ line r ≠ [] ∧ ∀ i, r < i → i < n → line i = [] := by
  induction n with
  | zero =>
    constructor
    · intro h
      cases h
    · rintro ⟨hlt, -⟩
      omega
  | succ n ih =>
    rw [lastOf]
    by_cases hn : line n = []
    · rw [if_pos hn, ih]
      constructor
      · rintro ⟨hlt, htext, hrest⟩
        refine ⟨by omega, htext, fun i hi hin => ?_⟩
        obtain hlt | rfl := Nat.lt_succ_iff_lt_or_eq.mp hin
        · exact hrest i hi hlt
        · exact hn
      · rintro ⟨hlt, htext, hrest⟩
        obtain hlt | rfl := Nat.lt_succ_iff_lt_or_eq.mp hlt
        · exact ⟨hlt, htext, fun i hi hin => hrest i hi (by omega)⟩
        · exact absurd hn htext
    · rw [if_neg hn]
      constructor
      · intro h
        cases h
        exact ⟨by omega, hn, fun i hi hin => by omega⟩
      · rintro ⟨hlt, -, hrest⟩
        obtain hlt | rfl := Nat.lt_succ_iff_lt_or_eq.mp hlt
        · exact absurd (hrest n hlt (Nat.lt_succ_self n)) hn
        · rfl

theorem last_eq_some_iff :
    p.last = some r ↔ r ≤ p.row ∧ p.line r ≠ [] ∧ ∀ i, r < i → p.line i = [] := by
  rw [last, lastOf_eq_some_iff]
  constructor
  · rintro ⟨hlt, htext, hrest⟩
    refine ⟨by omega, htext, fun i hi => ?_⟩
    by_cases hrow : i < p.row + 1
    · exact hrest i hi hrow
    · exact p.below i (by omega)
  · rintro ⟨hle, htext, hrest⟩
    exact ⟨by omega, htext, fun i hi _ => hrest i hi⟩

theorem erase_of_last (h : p.last = some r) : p.erase = p.eraseAt r := by
  rw [erase, h]

theorem last_put : (p.put a).last = some p.row := by
  refine last_eq_some_iff.mpr ⟨Nat.le_refl _, ?_, fun i hi => ?_⟩
  · show (if p.row = p.row then p.line p.row ++ [a] else p.line p.row) ≠ []
    rw [if_pos rfl]
    exact List.append_ne_nil_of_right_ne_nil _ (List.cons_ne_nil _ _)
  · exact (p.put a).below i hi

/-- **To erase undoes to write.** -/
theorem erase_put : (p.put a).erase = p := by
  rw [erase_of_last last_put]
  ext1
  · funext i
    show (if i < p.row then (if i = p.row then p.line i ++ [a] else p.line i) else
      if i = p.row then (if p.row = p.row then p.line p.row ++ [a] else p.line p.row).dropLast
      else []) = p.line i
    by_cases hlt : i < p.row
    · rw [if_pos hlt, if_neg (by omega)]
    · rw [if_neg hlt]
      by_cases heq : i = p.row
      · rw [if_pos heq, if_pos rfl, List.dropLast_concat, heq]
      · rw [if_neg heq, p.below i (by omega)]
  · rfl

theorem last_newLine (h : p.last = some r) : p.newLine.last = some r := by
  obtain ⟨hle, htext, hrest⟩ := last_eq_some_iff.mp h
  exact last_eq_some_iff.mpr ⟨Nat.le_succ_of_le hle, htext, hrest⟩

/-- **A new line is not written**: erasing goes past it. -/
theorem erase_newLine (h : p.last = some r) : p.newLine.erase = p.erase := by
  rw [erase_of_last h, erase_of_last (last_newLine h)]
  rfl

theorem last_start (h : p.last = some r) : (p.start columns).last = some r := by
  rw [start]
  split
  · exact last_newLine h
  · exact h

theorem erase_start (h : p.last = some r) : (p.start columns).erase = p.erase := by
  rw [start]
  split
  · exact erase_newLine h
  · rfl

/-! ## Cells -/

theorem cell_put (row column : Nat) : (p.put a).cell row column =
    if row = p.row ∧ column = p.column then some a else p.cell row column := by
  show (if row = p.row then p.line row ++ [a] else p.line row)[column]? = _
  by_cases hrow : row = p.row
  · subst hrow
    rw [if_pos rfl, List.getElem?_append]
    by_cases hlt : column < (p.line p.row).length
    · rw [if_pos hlt, if_neg (by rw [Page.column]; omega), cell]
    · rw [if_neg hlt]
      by_cases heq : column = p.column
      · rw [if_pos ⟨rfl, heq⟩, heq, Page.column, Nat.sub_self]
        rfl
      · rw [if_neg fun h => heq h.2, cell, List.getElem?_eq_none (Nat.le_of_not_lt hlt)]
        refine List.getElem?_eq_none ?_
        rw [Page.column] at heq
        show 1 ≤ column - (p.line p.row).length
        omega
  · rw [if_neg hrow, if_neg fun h => hrow h.1, cell]

theorem cell_eraseAt (h : p.last = some r) (row column : Nat) : (p.eraseAt r).cell row column =
    if row = r ∧ column = (p.line r).length - 1 then none else p.cell row column := by
  obtain ⟨-, -, hrest⟩ := last_eq_some_iff.mp h
  show (if row < r then p.line row else if row = r then (p.line r).dropLast else [])[column]? = _
  obtain hlt | rfl | hgt := Nat.lt_trichotomy row r
  · rw [if_pos hlt, if_neg fun h => by omega, cell]
  · rw [if_neg (Nat.lt_irrefl row), if_pos rfl, List.getElem?_dropLast]
    by_cases hlt : column < (p.line row).length - 1
    · rw [if_pos hlt, if_neg fun h => by omega, cell]
    · rw [if_neg hlt]
      by_cases heq : column = (p.line row).length - 1
      · rw [if_pos ⟨rfl, heq⟩]
      · rw [if_neg fun h => heq h.2, cell, List.getElem?_eq_none (by omega)]
  · rw [if_neg (by omega), if_neg (by omega), if_neg fun h => by omega, cell, hrest row hgt]

/-! ## Pages without their first lines -/

theorem drop_zero : p.drop 0 = p := rfl

theorem drop_drop (m : Nat) : (p.drop m).drop n = p.drop (m + n) := by
  ext1
  · funext i
    show p.line (i + n + m) = p.line (i + (m + n))
    congr 1
    omega
  · show p.row - m - n = p.row - (m + n)
    omega

theorem line_drop (h : n ≤ p.row) : (p.drop n).line (p.drop n).row = p.line p.row := by
  show p.line (p.row - n + n) = p.line p.row
  rw [Nat.sub_add_cancel h]

theorem column_drop (h : n ≤ p.row) : (p.drop n).column = p.column := by
  rw [column, line_drop h, column]

theorem drop_newLine (h : n ≤ p.row) : (p.drop n).newLine = p.newLine.drop n := by
  ext1
  · rfl
  · show p.row - n + 1 = p.row + 1 - n
    omega

theorem drop_put (h : n ≤ p.row) : (p.drop n).put a = (p.put a).drop n := by
  ext1
  · funext i
    show (if i = p.row - n then p.line (i + n) ++ [a] else p.line (i + n)) =
      if i + n = p.row then p.line (i + n) ++ [a] else p.line (i + n)
    by_cases heq : i = p.row - n
    · rw [if_pos heq, if_pos (by omega)]
    · rw [if_neg heq, if_neg (by omega)]
  · rfl

theorem drop_start (h : n ≤ p.row) : (p.drop n).start columns = (p.start columns).drop n := by
  rw [start, start, column_drop h]
  split
  · exact drop_newLine h
  · rfl

theorem line_start : (p.start columns).line = p.line := by
  rw [start]
  split <;> rfl

theorem row_le_start : p.row ≤ (p.start columns).row := by
  rw [start]
  split
  · exact Nat.le_succ _
  · exact Nat.le_refl _

theorem last_drop (h : p.last = some r) (hn : n ≤ r) : (p.drop n).last = some (r - n) := by
  obtain ⟨hle, htext, hrest⟩ := last_eq_some_iff.mp h
  refine last_eq_some_iff.mpr ⟨Nat.sub_le_sub_right hle n, ?_, fun i hi => ?_⟩
  · show p.line (r - n + n) ≠ []
    rw [Nat.sub_add_cancel hn]
    exact htext
  · exact hrest (i + n) (by omega)

theorem drop_erase (h : p.last = some r) (hn : n ≤ r) : (p.drop n).erase = p.erase.drop n := by
  rw [erase_of_last h, erase_of_last (last_drop h hn)]
  ext1
  · funext i
    show (if i < r - n then p.line (i + n) else
        if i = r - n then (p.line (r - n + n)).dropLast else []) =
      if i + n < r then p.line (i + n) else if i + n = r then (p.line r).dropLast else []
    rw [Nat.sub_add_cancel hn]
    by_cases hlt : i < r - n
    · rw [if_pos hlt, if_pos (show i + n < r by omega)]
    · rw [if_neg hlt, if_neg (show ¬ i + n < r by omega)]
      by_cases heq : i = r - n
      · rw [if_pos heq, if_pos (show i + n = r by omega)]
      · rw [if_neg heq, if_neg (show ¬ i + n = r by omega)]
  · rfl

/-! ## Places, in the order of reading -/

def index (columns : Nat) (p : Page α) : Nat := p.row * columns + p.column

theorem column_newLine : p.newLine.column = 0 := by
  show (p.line (p.row + 1)).length = 0
  rw [p.below _ (Nat.lt_succ_self _)]
  rfl

theorem column_put : (p.put a).column = p.column + 1 := by
  show (if p.row = p.row then p.line p.row ++ [a] else p.line p.row).length = p.column + 1
  rw [if_pos rfl, List.length_append]
  rfl

theorem column_start_lt (h : 0 < columns) : (p.start columns).column < columns := by
  rw [start]
  split
  · rw [column_newLine]
    exact h
  · omega

/-- **A full line and the empty one after it** are one place. -/
theorem index_start (h : p.column ≤ columns) :
    (p.start columns).index columns = p.index columns := by
  rw [start]
  by_cases hfull : columns ≤ p.column
  · rw [if_pos hfull, index, index, column_newLine]
    show (p.row + 1) * columns + 0 = p.row * columns + p.column
    rw [Nat.succ_mul]
    omega
  · rw [if_neg hfull]

theorem row_start (h : p.column ≤ columns) (hpos : 0 < columns) :
    (p.start columns).row = p.index columns / columns := by
  rw [← index_start h, index, Nat.mul_comm, Nat.mul_add_div hpos,
    Nat.div_eq_of_lt (column_start_lt hpos), Nat.add_zero]

theorem column_start (h : p.column ≤ columns) (hpos : 0 < columns) :
    (p.start columns).column = p.index columns % columns := by
  rw [← index_start h, index, Nat.mul_comm, Nat.mul_add_mod,
    Nat.mod_eq_of_lt (column_start_lt hpos)]

theorem column_write_le (h : 0 < columns) : (p.write columns a).column ≤ columns := by
  rw [write, column_put]
  exact column_start_lt h

theorem index_write (h : p.column ≤ columns) :
    (p.write columns a).index columns = p.index columns + 1 := by
  rw [← index_start h, write, index, column_put]
  rfl

/-- Some text, one after the other. -/
def writes (columns : Nat) (p : Page α) (text : List α) : Page α := text.foldl (write columns) p

theorem writes_append (text : List α) :
    p.writes columns (text ++ [a]) = (p.writes columns text).write columns a := by
  rw [writes, List.foldl_append]
  rfl

theorem index_writes (h : p.column ≤ columns) (hpos : 0 < columns) (text : List α) :
    (p.writes columns text).column ≤ columns ∧
      (p.writes columns text).index columns = p.index columns + text.length := by
  induction text generalizing p with
  | nil => exact ⟨h, rfl⟩
  | cons a text ih =>
    obtain ⟨hcolumn, hindex⟩ := ih (p := p.write columns a) (column_write_le hpos)
    refine ⟨hcolumn, hindex.trans ?_⟩
    rw [index_write h, List.length_cons]
    omega

/-! ### The cells of a text -/

/-- Behind the cursor there is nothing. -/
theorem cell_eq_none {row column : Nat} (hcolumn : column < columns)
    (h : p.index columns ≤ row * columns + column) : p.cell row column = none := by
  rw [cell]
  obtain hlt | rfl | hgt := Nat.lt_trichotomy row p.row
  · -- a row above the cursor ends in front of it
    have hnext : (row + 1) * columns ≤ p.row * columns := Nat.mul_le_mul_right _ hlt
    rw [Nat.succ_mul] at hnext
    rw [index] at h
    omega
  · refine List.getElem?_eq_none ?_
    rw [index] at h
    exact Nat.le_of_add_le_add_left h
  · rw [p.below row hgt]
    rfl

theorem place_eq_iff {row column : Nat} (hcolumn : column < columns) (h : p.column < columns) :
    row * columns + column = p.index columns ↔ row = p.row ∧ column = p.column := by
  rw [index]
  constructor
  · intro heq
    have hpos : 0 < columns := Nat.lt_of_le_of_lt (Nat.zero_le _) hcolumn
    have hrow := congrArg (· / columns) heq
    rw [Nat.mul_comm, Nat.mul_add_div hpos, Nat.div_eq_of_lt hcolumn, Nat.mul_comm,
      Nat.mul_add_div hpos, Nat.div_eq_of_lt h] at hrow
    obtain rfl : row = p.row := hrow
    exact ⟨rfl, Nat.add_left_cancel heq⟩
  · rintro ⟨rfl, rfl⟩
    rfl

/-- **What is written is read**, a cell for each `a`, and the cells before it stay. -/
theorem cell_writes (h : p.column ≤ columns) {row column : Nat} (hcolumn : column < columns)
    (text : List α) : (p.writes columns text).cell row column =
      if row * columns + column < p.index columns then p.cell row column
      else text[row * columns + column - p.index columns]? := by
  have hpos : 0 < columns := Nat.lt_of_le_of_lt (Nat.zero_le _) hcolumn
  induction text generalizing p with
  | nil =>
    split_ifs with hbefore
    · rfl
    · exact cell_eq_none hcolumn (Nat.le_of_not_lt hbefore)
  | cons a text ih =>
    have hstart := @place_eq_iff _ (p.start columns) columns row column hcolumn
      (column_start_lt hpos)
    rw [index_start h] at hstart
    have hold : (p.start columns).cell row column = p.cell row column := by
      rw [cell, line_start, cell]
    show ((p.write columns a).writes columns text).cell row column = _
    rw [ih (column_write_le hpos), index_write h, write, cell_put, hold]
    obtain hlt | heq | hgt := Nat.lt_trichotomy (row * columns + column) (p.index columns)
    · rw [if_pos (Nat.lt_succ_of_lt hlt), if_neg fun h => Nat.ne_of_lt hlt (hstart.mpr h),
        if_pos hlt]
    · rw [if_pos (hstart.mp heq), heq, if_pos (Nat.lt_succ_self _), if_neg (Nat.lt_irrefl _),
        Nat.sub_self]
      rfl
    · rw [if_neg (Nat.not_lt.mpr hgt), if_neg (Nat.not_lt_of_gt hgt),
        show row * columns + column - p.index columns =
          row * columns + column - (p.index columns + 1) + 1 by omega]
      rfl

end Page
