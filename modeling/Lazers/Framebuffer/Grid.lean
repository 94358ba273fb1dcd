import Lazers.Framebuffer.Safety
import Lazers.Lib.Page

/-!
# The text of the console

`Grid` is what the console is for: rows of text with a cursor behind what was written last. There
are no pixels, no lengths of rows and no column of the cursor in it, only the text. Its operations
write at the cursor and wrap when more is written to a full row, go to the next line, drop the top
row for a blank one below the others when there is no next line, and take away the last cell with
text unless that one is before the floor of the session.

`Control` says that the cursor, the floor and the lengths of the rows are those of the text. Every
operation keeps it on a screen with two rows or more: with one row, `scroll_up` has regimes of
its own.
-/

namespace Lazers.Framebuffer

/-! ## The grid -/

structure Grid where
  rows : Nat
  columns : Nat
  page : Page UInt8
  floor : Option ConsoleCursor

namespace Grid

def empty (rows columns : Nat) : Grid := ⟨rows, columns, Page.empty, none⟩

/-- The byte of a cell, if it is not blank. -/
def cell (g : Grid) (row column : Nat) : Option UInt8 := g.page.cell row column

def cursor (g : Grid) : ConsoleCursor := ⟨g.page.column, g.page.row⟩

/-- The top row goes, and a blank one comes below the others. -/
def scroll (g : Grid) : Grid :=
  { g with
    page := g.page.drop 1
    floor := g.floor.map fun floor => { floor with row := floor.row - 1 } }

def newLine (g : Grid) : Grid :=
  let g := { g with page := g.page.newLine }
  if g.page.row < g.rows then g else g.scroll

def wrap (g : Grid) : Grid := if g.columns ≤ g.page.column then g.newLine else g

def write (g : Grid) (byte : UInt8) : Grid := { g.wrap with page := g.wrap.page.put byte }

/-- The last cell with text. -/
def target (g : Grid) : Option ConsoleCursor :=
  g.page.last.map fun row => ⟨(g.page.line row).length - 1, row⟩

/-- The last cell with text becomes blank, if a session began before it. -/
def backspace (g : Grid) : Grid :=
  match g.floor, g.target with
  | some floor, some target =>
    if target.Before floor then g else { g with page := g.page.erase }
  | _, _ => g

def apply (g : Grid) : Op → Grid
  | .clear => empty g.rows g.columns
  | .beginTerminalSession => { g with floor := some g.cursor }
  | .writeTerminalByte byte =>
    if byte = 10 then g.newLine else if byte = 0x7f then g.backspace else g.write byte

def run (g : Grid) (ops : List Op) : Grid := ops.foldl apply g

end Grid

namespace FramebufferConsole

variable {c c' c₁ c₂ : FramebufferConsole} {g g' : Grid}

/-! ## Cursor, floor and lengths -/

/-- What the console knows about its text. -/
structure Control (c : FramebufferConsole) (g : Grid) : Prop where
  rows : g.rows = c.rows
  columns : g.columns = c.columns
  row : c.cursorRow = g.page.row
  column : c.cursorColumn = g.page.column
  lengths : ∀ row < c.rows, c.rowLengths.get row = (g.page.line row).length
  floor : c.inputFloor = g.floor

namespace Control

/-- The line below the last row is blank. -/
theorem line_rows (h : Valid c) (hc : Control c g) : g.page.line c.rows = [] := by
  have hrow := h.cursorRow
  rw [hc.row] at hrow
  exact g.page.below _ hrow

theorem newLine_of_next (hc : Control c g) (hrow : c.cursorRow + 1 < c.rows) :
    g.newLine = { g with page := g.page.newLine } := by
  refine if_pos ?_
  show g.page.row + 1 < g.rows
  rw [← hc.row, hc.rows]
  exact hrow

theorem next (hc : Control c g) (hrow : c.cursorRow + 1 < c.rows) :
    Control { c with cursorColumn := 0, cursorRow := c.cursorRow + 1 } g.newLine := by
  rw [hc.newLine_of_next hrow]
  exact ⟨hc.rows, hc.columns, congrArg (· + 1) hc.row, Page.column_newLine.symm, hc.lengths,
    hc.floor⟩

theorem newLine_of_last (hc : Control c g) (hrow : c.cursorRow + 1 = c.rows) :
    g.newLine = Grid.scroll { g with page := g.page.newLine } := by
  refine if_neg ?_
  show ¬ g.page.row + 1 < g.rows
  rw [← hc.row, hc.rows]
  omega

theorem scrolled (h : Valid c) (hc : Control c g) (hrow : c.cursorRow + 1 = c.rows)
    (hscrolled : Scrolled { c with cursorColumn := 0 } c₁) :
    Control { c₁ with cursorRow := c₁.rows - 1 } g.newLine := by
  rw [hc.newLine_of_last hrow]
  have hlengths := hscrolled.lengths
  have hlast := hc.line_rows h
  rw [hscrolled.frame]
  refine ⟨hc.rows, hc.columns, ?_, ?_, fun row hlt => ?_, ?_⟩
  · show c.rows - 1 = g.page.row + 1 - 1
    rw [← hc.row]
    omega
  · show 0 = (g.page.newLine.drop 1).column
    rw [Page.column_drop (Nat.succ_le_succ (Nat.zero_le _)), Page.column_newLine]
  · show c₁.rowLengths.get row = (g.page.line (row + 1)).length
    rw [hlengths]
    dsimp only at hlt ⊢
    by_cases hnext : row + 1 < c.rows
    · -- `row_lengths.copy_within(1..rows, 0)`
      rw [if_pos hnext]
      exact hc.lengths _ hnext
    · obtain hrows : row + 1 = c.rows := by omega
      rw [if_neg hnext, if_pos hrows, hrows, hlast]
      rfl
  · show c.inputFloor.map _ = g.floor.map _
    rw [hc.floor]

end Control

/-- With two rows there is only one regime. -/
theorem tall_of_rows (h : Valid c) (hrows : 2 ≤ c.rows) : 49 ≤ c.visibleHeight := by
  have hfits := @Valid.row_fits c 1 h hrows (by omega)
  dsimp only [paddingY, glyphAdvanceY, glyphHeight] at hfits
  omega

theorem ScrollsUp.scrolled (h : Valid c) (hrows : 2 ≤ c.rows) (hscrolls : ScrollsUp c c₁) :
    Scrolled c c₁ := by
  have htall := tall_of_rows h hrows
  cases hscrolls with
  | cleared hheight _ => omega
  | banded hheight _ => omega
  | shifted _ hscrolled => exact hscrolled

/-- `newLine_cases` on a screen with two rows or more. -/
theorem newLine_cases_of_rows (h : Valid c) (hrows : 2 ≤ c.rows) :
    (c.cursorRow + 1 < c.rows ∧
      c.newLine = some { c with cursorColumn := 0, cursorRow := c.cursorRow + 1 }) ∨
    (c.cursorRow + 1 = c.rows ∧ ∃ c₁, Scrolled { c with cursorColumn := 0 } c₁ ∧
      c.newLine = some { c₁ with cursorRow := c₁.rows - 1 }) := by
  obtain hnext | ⟨hrow, c₁, hscrolls, hrun⟩ := newLine_cases h
  · exact .inl hnext
  · exact .inr ⟨hrow, c₁, hscrolls.scrolled h.lineStart hrows, hrun⟩

namespace Control

theorem newLine (h : Valid c) (hrows : 2 ≤ c.rows) (hc : Control c g) (hrun : c.newLine = some c') :
    Control c' g.newLine := by
  obtain ⟨hrow, hnext⟩ | ⟨hrow, c₁, hscrolled, hlast⟩ := newLine_cases_of_rows h hrows
  · obtain rfl := Option.some.inj (hnext.symm.trans hrun)
    exact hc.next hrow
  · obtain rfl := Option.some.inj (hlast.symm.trans hrun)
    exact hc.scrolled h hrow hscrolled

theorem wrap (h : Valid c) (hrows : 2 ≤ c.rows) (hc : Control c g) (hrun : c.wrap = some c') :
    Control c' g.wrap := by
  rw [FramebufferConsole.wrap] at hrun
  rw [Grid.wrap, hc.columns, ← hc.column]
  by_cases hfull : c.cursorColumn ≥ c.columns
  · rw [if_pos hfull] at hrun ⊢
    exact hc.newLine h hrows hrun
  · rw [if_neg hfull] at hrun ⊢
    obtain rfl := Option.some.inj hrun
    exact hc

/-- A cell that is drawn does not matter here. -/
theorem draws {column row : Nat} {mask : Nat → Nat → Prop} (hc : Control c g)
    (hdraws : Draws column row mask c c') : Control c' g := by
  obtain ⟨pixels, rfl⟩ := hdraws.exists_pixels
  exact ⟨hc.rows, hc.columns, hc.row, hc.column, hc.lengths, hc.floor⟩

theorem put (hc : Control c g) (byte : UInt8) {rowLengths : Cells Nat}
    (hget : ∀ row, rowLengths.get row = if row = c.cursorRow then
      max (c.rowLengths.get row) (c.cursorColumn + 1) else c.rowLengths.get row) :
    Control { c with cursorColumn := c.cursorColumn + 1, rowLengths }
      { g with page := g.page.put byte } := by
  refine ⟨hc.rows, hc.columns, hc.row, ?_, fun row hlt => ?_, hc.floor⟩
  · show c.cursorColumn + 1 = (g.page.put byte).column
    rw [Page.column_put, hc.column]
  · show rowLengths.get row =
      (if row = g.page.row then g.page.line row ++ [byte] else g.page.line row).length
    rw [hget, ← hc.row]
    by_cases heq : row = c.cursorRow
    · have hlength : (g.page.line row).length = c.cursorColumn := by
        rw [hc.column, Page.column, ← hc.row, heq]
      rw [if_pos heq, if_pos heq, hc.lengths row hlt, List.length_append, hlength,
        Nat.max_eq_right (Nat.le_succ _)]
      rfl
    · rw [if_neg heq, if_neg heq]
      exact hc.lengths row hlt

theorem write (h : Valid c) (hrows : 2 ≤ c.rows) (hc : Control c g) (byte : UInt8)
    (hrun : c.writeByte byte = some c') : Control c' (g.write byte) := by
  obtain ⟨c₁, c₂, rowLengths, hwrap, hdraws, hget, hwrite⟩ := writeByte_spec h byte
  obtain rfl := Option.some.inj (hwrite.symm.trans hrun)
  obtain ⟨c₀, hsome, h₁, -⟩ := wrap_valid h
  obtain rfl := Option.some.inj (hwrap.symm.trans hsome)
  have hc₂ := (hc.wrap h hrows hwrap).draws hdraws
  obtain ⟨pixels, rfl⟩ := hdraws.exists_pixels
  exact hc₂.put byte hget

/-! ### The target of a backspace -/

theorem lastWrittenAbove (h : Valid c) (hc : Control c g) {row : Nat} (hrow : row ≤ c.rows) :
    c.lastWrittenAbove row = some ((Page.lastOf g.page.line row).map
      fun row => ⟨(g.page.line row).length - 1, row⟩) := by
  have hmax := h.rows_le
  induction row with
  | zero => rfl
  | succ row ih =>
    rw [FramebufferConsole.lastWrittenAbove, Cells.read_of_lt (by omega), hc.lengths row hrow,
      Page.lastOf]
    dsimp only [Option.bind_eq_bind, Option.bind_some]
    by_cases hline : g.page.line row = []
    · rw [if_pos hline, hline, List.length_nil, if_neg (Nat.lt_irrefl 0)]
      exact ih (by omega)
    · rw [if_neg hline, if_pos (List.length_pos_iff.mpr hline)]
      rfl

/-- The console looks for the last cell with text. -/
theorem previousCursorPosition (h : Valid c) (hc : Control c g) :
    c.previousCursorPosition = some g.target := by
  rw [FramebufferConsole.previousCursorPosition, Grid.target, Page.last, Page.lastOf, hc.column,
    hc.row]
  by_cases hline : g.page.line g.page.row = []
  · rw [if_pos hline, Page.column, hline, List.length_nil, if_neg (Nat.lt_irrefl 0), ← hc.row]
    exact hc.lastWrittenAbove h (Nat.le_of_lt h.cursorRow)
  · rw [if_neg hline, Page.column, if_pos (List.length_pos_iff.mpr hline)]
    rfl

theorem accepts_iff (h : Valid c) (hc : Control c g) {target : ConsoleCursor} :
    Accepts c target ↔ g.target = some target ∧
      ∃ floor, g.floor = some floor ∧ ¬ target.Before floor := by
  rw [← hc.floor]
  constructor
  · rintro ⟨hprevious, hfloor⟩
    exact ⟨Option.some.inj ((hc.previousCursorPosition h).symm.trans hprevious), hfloor⟩
  · rintro ⟨htarget, hfloor⟩
    exact ⟨(hc.previousCursorPosition h).trans (congrArg some htarget), hfloor⟩

/-- The text after an accepted backspace. -/
theorem backspace_of_accepts (h : Valid c) (hc : Control c g) {target : ConsoleCursor}
    (haccepts : Accepts c target) : ∃ row, g.page.last = some row ∧
      target = ⟨(g.page.line row).length - 1, row⟩ ∧
      g.backspace = { g with page := g.page.eraseAt row } := by
  obtain ⟨htarget, floor, hfloor, hnotBefore⟩ := (hc.accepts_iff h).mp haccepts
  have hbackspace : g.backspace = { g with page := g.page.erase } := by
    rw [Grid.backspace, hfloor, htarget]
    exact if_neg hnotBefore
  obtain ⟨row, hlast, heq⟩ := Option.map_eq_some_iff.mp htarget
  rw [hbackspace, Page.erase_of_last hlast]
  exact ⟨row, hlast, heq.symm, rfl⟩

theorem backspace_of_rejects (h : Valid c) (hc : Control c g)
    (hrejects : ∀ target, ¬ Accepts c target) : g.backspace = g := by
  rw [Grid.backspace]
  cases hfloor : g.floor with
  | none => rfl
  | some floor =>
    cases htarget : g.target with
    | none => rfl
    | some target =>
      refine if_pos ?_
      by_contra hnot
      exact hrejects target ((hc.accepts_iff h).mpr ⟨htarget, floor, hfloor, hnot⟩)

theorem erase {row : Nat} (hc : Control c g) (hlast : g.page.last = some row)
    {rowLengths : Cells Nat}
    (hget : ∀ r, rowLengths.get r = if r = row then (g.page.line row).length - 1
      else c.rowLengths.get r) :
    Control { c with
      cursorColumn := (g.page.line row).length - 1, cursorRow := row, rowLengths }
      { g with page := g.page.eraseAt row } := by
  obtain ⟨hle, htext, hblank⟩ := Page.last_eq_some_iff.mp hlast
  refine ⟨hc.rows, hc.columns, rfl, ?_, fun r hr => ?_, hc.floor⟩
  · show (g.page.line row).length - 1 =
      (if row < row then g.page.line row else
        if row = row then (g.page.line row).dropLast else []).length
    rw [if_neg (Nat.lt_irrefl row), if_pos rfl, List.length_dropLast]
  · show rowLengths.get r = (if r < row then g.page.line r else
      if r = row then (g.page.line row).dropLast else []).length
    -- the rows that a backspace goes past had no text, and so their lengths are right
    rw [hget]
    obtain hlt | rfl | hgt := Nat.lt_trichotomy r row
    · rw [if_neg (by omega), if_pos hlt]
      exact hc.lengths r hr
    · rw [if_pos rfl, if_neg (Nat.lt_irrefl r), if_pos rfl, List.length_dropLast]
    · rw [if_neg (by omega), if_neg (by omega), if_neg (by omega), hc.lengths r hr, hblank r hgt]

end Control

/-! ## Any operation -/

namespace Control

theorem backspace (h : Valid c) (hc : Control c g) {accepted : Bool}
    (hrun : c.backspaceFromSession = some (accepted, c')) : Control c' g.backspace := by
  by_cases haccepts : ∃ target, Accepts c target
  · obtain ⟨target, haccepts⟩ := haccepts
    obtain ⟨c₁, rowLengths, hdraws, hget, herase⟩ := backspace_accepts h haccepts
    obtain ⟨row, hlast, rfl, hg⟩ := hc.backspace_of_accepts h haccepts
    cases Option.some.inj (herase.symm.trans hrun)
    rw [hg]
    have hc₁ := hc.draws hdraws
    obtain ⟨pixels, rfl⟩ := hdraws.exists_pixels
    exact hc₁.erase hlast hget
  · have hrejects : ∀ target, ¬ Accepts c target := fun target ht => haccepts ⟨target, ht⟩
    cases Option.some.inj ((backspace_rejects h hrejects).symm.trans hrun)
    rw [hc.backspace_of_rejects h hrejects]
    exact hc

theorem cleared (h : Valid c) {rows columns : Nat} (hrows : rows = c.rows)
    (hcolumns : columns = c.columns) (hcleared : Cleared c c') :
    Control c' (Grid.empty rows columns) := by
  have hzero := hcleared.lengths
  have hmax := h.rows_le
  rw [hcleared.frame]
  refine ⟨hrows, hcolumns, rfl, rfl, fun row hrow => ?_, rfl⟩
  exact hzero row (Nat.lt_of_lt_of_le hrow hmax)

/-- **The byte paths** agree with those of the text. -/
theorem writeTerminalByte (h : Valid c) (hrows : 2 ≤ c.rows) (hc : Control c g) (byte : UInt8)
    (hrun : c.writeTerminalByte byte = some c') :
    Control c' (g.apply (.writeTerminalByte byte)) := by
  obtain ⟨rfl, hnext⟩ | ⟨rfl, accepted, hback⟩ | ⟨⟨hline, herase⟩, hwrite⟩ :=
    writeTerminalByte_cases hrun
  · exact hc.newLine h hrows hnext
  · exact hc.backspace h hback
  · rw [Grid.apply, if_neg hline, if_neg herase]
    exact hc.write h hrows byte hwrite

theorem apply (h : Valid c) (hrows : 2 ≤ c.rows) (hc : Control c g) (op : Op)
    (hrun : c.apply op = some c') : Control c' (g.apply op) := by
  cases op with
  | clear =>
    obtain ⟨_, hclear, hcleared⟩ := c.clear_cleared
    obtain rfl := Option.some.inj (hclear.symm.trans hrun)
    exact cleared h hc.rows hc.columns hcleared
  | beginTerminalSession =>
    obtain rfl := Option.some.inj hrun
    refine ⟨hc.rows, hc.columns, hc.row, hc.column, hc.lengths, ?_⟩
    show some c.cursor = some g.cursor
    rw [FramebufferConsole.cursor, Grid.cursor, hc.row, hc.column]
  | writeTerminalByte byte => exact hc.writeTerminalByte h hrows byte hrun

/-- **Any run.** -/
theorem run (h : Valid c) (hrows : 2 ≤ c.rows) (hc : Control c g) (ops : List Op)
    (hrun : c.run ops = some c') : Control c' (g.run ops) := by
  induction ops generalizing c g with
  | nil =>
    obtain rfl := Option.some.inj hrun
    exact hc
  | cons op ops ih =>
    obtain ⟨c₁, hstep, h₁, hsame⟩ := apply_valid h op
    rw [FramebufferConsole.run, List.foldlM_cons, hstep] at hrun
    exact ih h₁ (by rw [hsame.rows]; exact hrows) (hc.apply h hrows op hstep) hrun

end Control

end FramebufferConsole

end Lazers.Framebuffer
