import Lazers.Framebuffer.Grid

/-!
# The screen shows the text

`Shown` says that each cell of the screen has the glyph of its byte and is blank without one, and
that the lines between the last row and the lower padding are blank. A scroll moves these lines into
the last row: their number is not a multiple of the height of a row, and the band that it clears
does not reach all of that row.

What is right of the screen is not drawn, and so a screen that is too narrow for a glyph shows only
a part of it. This is all that is lost: `glyph_on_screen`.
-/

namespace Lazers.Framebuffer

/-- The pixels of the glyph in a cell of the text. -/
def Grid.Ink (g : Grid) (column row x y : Nat) : Prop :=
  ∃ byte, g.cell row column = some byte ∧ FramebufferConsole.Inked column row (glyphFor byte) x y

namespace FramebufferConsole

variable {c c' c₁ c₂ : FramebufferConsole} {g g' : Grid} {row column x y : Nat}

/-- The end of the glyphs in the last row. -/
def textEnd (c : FramebufferConsole) : Nat :=
  paddingY + (c.rows - 1) * glyphAdvanceY + glyphHeight

/-- **The screen shows the text.** -/
structure Shown (c : FramebufferConsole) (g : Grid) : Prop where
  ink : ∀ row < c.rows, ∀ column x y, x < c.framebuffer.width → InCell column row x y →
    g.Ink column row x y → c.pixel x y = c.ink
  blank : ∀ row < c.rows, ∀ column x y, x < c.framebuffer.width → InCell column row x y →
    ¬ g.Ink column row x y → c.pixel x y = c.blank
  below : ∀ x y, x < c.framebuffer.width → c.textEnd ≤ y → y + paddingY < c.visibleHeight →
    c.pixel x y = c.blank

/-! ## Cells that are drawn -/

theorem InCell.lt_textEnd (hrow : row < c.rows) (hcell : InCell column row x y) :
    paddingY ≤ y ∧ y < c.textEnd := by
  have hmul : row * glyphAdvanceY ≤ (c.rows - 1) * glyphAdvanceY :=
    Nat.mul_le_mul_right _ (by omega)
  obtain ⟨-, hy, hy'⟩ := hcell
  rw [textEnd]
  omega

theorem textEnd_le (h : Valid c) (hrows : 2 ≤ c.rows) :
    c.textEnd + paddingY ≤ c.visibleHeight :=
  h.row_fits hrows (by omega)

theorem Shown.draws {mask : Nat → Nat → Prop} (h : Valid c) (hrows : 2 ≤ c.rows)
    (hstride : c.framebuffer.width ≤ c.framebuffer.stride) (hshown : Shown c g)
    (hdraws : Draws column row mask c c₁) (hrow : row < c.rows)
    (hmask : ∀ x y, mask x y ↔ g'.Ink column row x y)
    (hother : ∀ r k, ¬ (r = row ∧ k = column) → g'.cell r k = g.cell r k) : Shown c₁ g' := by
  have hink : ∀ r k x y, ¬ (r = row ∧ k = column) → (g'.Ink k r x y ↔ g.Ink k r x y) := by
    intro r k x y hne
    rw [Grid.Ink, Grid.Ink, hother r k hne]
  have hsame := (hdraws.valid h).2
  have hinked := hdraws.inked hstride
  have hblank := hdraws.blank hstride
  have houtside := hdraws.outside hstride
  refine ⟨fun r hr k x y hx hcell hin => ?_, fun r hr k x y hx hcell hout => ?_,
    fun x y hx hstart hend => ?_⟩
  all_goals rw [hsame.framebuffer] at hx
  · rw [hsame.rows] at hr
    rw [hsame.ink]
    by_cases heq : r = row ∧ k = column
    · obtain ⟨rfl, rfl⟩ := heq
      exact hinked x y hx (hcell.visible h hrows hr) ((hmask x y).mpr hin)
    · rw [houtside x y hx fun hdrawn => heq (hcell.inj hdrawn).symm]
      exact hshown.ink r hr k x y hx hcell ((hink r k x y heq).mp hin)
  · rw [hsame.rows] at hr
    rw [hsame.blank]
    by_cases heq : r = row ∧ k = column
    · obtain ⟨rfl, rfl⟩ := heq
      exact hblank x y hx (hcell.visible h hrows hr) hcell fun hin => hout ((hmask x y).mp hin)
    · rw [houtside x y hx fun hdrawn => heq (hcell.inj hdrawn).symm]
      exact hshown.blank r hr k x y hx hcell fun hin => hout ((hink r k x y heq).mpr hin)
  · rw [textEnd, hsame.rows] at hstart
    rw [hsame.visibleHeight] at hend
    rw [hsame.blank, houtside x y hx fun hdrawn => Nat.not_lt.mpr hstart (hdrawn.lt_textEnd hrow).2]
    exact hshown.below x y hx hstart hend

/-! ## Scrolling -/

theorem inked_next {glyph : Glyph} :
    Inked column (row + 1) glyph x (y + glyphAdvanceY) ↔ Inked column row glyph x y := by
  constructor
  · rintro ⟨j, hj, i, hi, hbit, hx, hy⟩
    rw [Nat.succ_mul] at hy
    exact ⟨j, hj, i, hi, hbit, hx, by omega⟩
  · rintro ⟨j, hj, i, hi, hbit, hx, hy⟩
    refine ⟨j, hj, i, hi, hbit, hx, ?_⟩
    rw [Nat.succ_mul]
    omega

theorem Grid.ink_scroll : g.scroll.Ink column row x y ↔
    g.Ink column (row + 1) x (y + glyphAdvanceY) := by
  constructor
  · rintro ⟨byte, hcell, hinked⟩
    exact ⟨byte, hcell, inked_next.mpr hinked⟩
  · rintro ⟨byte, hcell, hinked⟩
    exact ⟨byte, hcell, inked_next.mp hinked⟩

/-- **No residue.** What a scroll moves into the last row was below the text. -/
theorem Shown.scrolled (h : Valid c) (hrows : 2 ≤ c.rows)
    (hstride : c.framebuffer.width ≤ c.framebuffer.stride) (hshown : Shown c g)
    (hlast : g.page.line c.rows = []) (hscrolled : Scrolled c c₁) : Shown c₁ g.scroll := by
  have hmoved := hscrolled.moved hstride
  have hcleared := hscrolled.cleared hstride
  have hsame := hscrolled.same
  have hend := textEnd_le h hrows
  -- a line that comes from below the text, or from the lower padding, is blank
  have hblank : ∀ x y, x < c.framebuffer.width → paddingY ≤ y → c.textEnd ≤ y + glyphAdvanceY →
      y + paddingY < c.visibleHeight → c₁.pixel x y = c.blank := by
    intro x y hx htop hstart hbottom
    by_cases hlines : y + glyphAdvanceY + paddingY < c.visibleHeight
    · rw [hmoved x y hx htop hlines]
      exact hshown.below x (y + glyphAdvanceY) hx hstart hlines
    · exact hcleared x y hx (Nat.not_lt.mp hlines) hbottom
  -- the rows above the last come from the rows below them
  have hfits : ∀ r k x y, r + 1 < c.rows → InCell k r x y →
      y + glyphAdvanceY + paddingY < c.visibleHeight := by
    intro r k x y hr hcell
    have hy := (hcell.next.lt_textEnd hr).2
    omega
  -- the last row is blank, whichever of its lines the cleared band reaches
  have hrest : ∀ r k x y, r + 1 = c.rows → x < c.framebuffer.width → InCell k r x y →
      c₁.pixel x y = c.blank := by
    intro r k x y hr hx hcell
    obtain ⟨htop, hy⟩ := @InCell.lt_textEnd c r k x y (by omega) hcell
    refine hblank x y hx htop ?_ (by omega)
    have hstart := hcell.2.1
    rw [textEnd, ← hr, Nat.add_sub_cancel]
    have hheight : glyphHeight ≤ glyphAdvanceY := by decide
    omega
  refine ⟨fun r hr k x y hx hcell hin => ?_, fun r hr k x y hx hcell hout => ?_,
    fun x y hx hstart hbottom => ?_⟩
  all_goals rw [hsame.framebuffer] at hx
  · rw [hsame.rows] at hr
    rw [hsame.ink]
    by_cases hnext : r + 1 < c.rows
    · rw [hmoved x y hx (hcell.lt_textEnd hr).1 (hfits r k x y hnext hcell)]
      exact hshown.ink (r + 1) hnext k _ _ hx hcell.next (Grid.ink_scroll.mp hin)
    · obtain ⟨byte, hbyte, -⟩ := hin
      have hnone : g.scroll.cell r k = none := by
        show (g.page.line (r + 1))[k]? = none
        rw [show r + 1 = c.rows by omega, hlast]
        rfl
      rw [hnone] at hbyte
      cases hbyte
  · rw [hsame.rows] at hr
    rw [hsame.blank]
    by_cases hnext : r + 1 < c.rows
    · rw [hmoved x y hx (hcell.lt_textEnd hr).1 (hfits r k x y hnext hcell)]
      exact hshown.blank (r + 1) hnext k _ _ hx hcell.next
        fun hin => hout (Grid.ink_scroll.mpr hin)
    · exact hrest r k x y (by omega) hx hcell
  · rw [textEnd, hsame.rows] at hstart
    rw [hsame.visibleHeight] at hbottom
    rw [hsame.blank]
    have htop : paddingY ≤ c.textEnd := by
      rw [textEnd, Nat.add_assoc]
      exact Nat.le_add_right _ _
    exact hblank x y hx (Nat.le_trans htop hstart) (Nat.le_add_right_of_le hstart) hbottom

/-! ## Any operation -/

namespace Shown

theorem newLine (h : Valid c) (hrows : 2 ≤ c.rows)
    (hstride : c.framebuffer.width ≤ c.framebuffer.stride) (hc : Control c g)
    (hshown : Shown c g) (hrun : c.newLine = some c') : Shown c' g.newLine := by
  obtain ⟨hrow, hnext⟩ | ⟨hrow, c₁, hscrolled, hlast⟩ := newLine_cases_of_rows h hrows
  · obtain rfl := Option.some.inj (hnext.symm.trans hrun)
    rw [hc.newLine_of_next hrow]
    exact ⟨hshown.ink, hshown.blank, hshown.below⟩
  · obtain rfl := Option.some.inj (hlast.symm.trans hrun)
    rw [hc.newLine_of_last hrow]
    have hshown : Shown { c with cursorColumn := 0 } { g with page := g.page.newLine } :=
      ⟨hshown.ink, hshown.blank, hshown.below⟩
    have hblank := hc.line_rows h
    have hscroll := hshown.scrolled h.lineStart hrows hstride hblank hscrolled
    exact ⟨hscroll.ink, hscroll.blank, hscroll.below⟩

theorem wrap (h : Valid c) (hrows : 2 ≤ c.rows)
    (hstride : c.framebuffer.width ≤ c.framebuffer.stride) (hc : Control c g)
    (hshown : Shown c g) (hrun : c.wrap = some c') : Shown c' g.wrap := by
  rw [FramebufferConsole.wrap] at hrun
  rw [Grid.wrap, hc.columns, ← hc.column]
  by_cases hfull : c.cursorColumn ≥ c.columns
  · rw [if_pos hfull] at hrun ⊢
    exact hshown.newLine h hrows hstride hc hrun
  · rw [if_neg hfull] at hrun ⊢
    obtain rfl := Option.some.inj hrun
    exact hshown

theorem write (h : Valid c) (hrows : 2 ≤ c.rows)
    (hstride : c.framebuffer.width ≤ c.framebuffer.stride) (hc : Control c g)
    (hshown : Shown c g) (byte : UInt8) (hrun : c.writeByte byte = some c') :
    Shown c' (g.write byte) := by
  obtain ⟨c₁, c₂, rowLengths, hwrap, hdraws, hget, hwrite⟩ := writeByte_spec h byte
  obtain rfl := Option.some.inj (hwrite.symm.trans hrun)
  obtain ⟨c₀, hsome, h₁, hsame, -⟩ := wrap_valid h
  obtain rfl := Option.some.inj (hwrap.symm.trans hsome)
  have hc₁ := hc.wrap h hrows hwrap
  have hcell : ∀ r k, (g.write byte).cell r k =
      if r = c₁.cursorRow ∧ k = c₁.cursorColumn then some byte else g.wrap.cell r k := by
    intro r k
    rw [hc₁.row, hc₁.column]
    exact Page.cell_put r k
  -- only the cell at the cursor changes, on the screen and in the text
  have hdrawn : Shown c₂ (g.write byte) := by
    refine (hshown.wrap h hrows hstride hc hwrap).draws h₁ (by rw [hsame.rows]; exact hrows)
      (by rw [hsame.framebuffer]; exact hstride) hdraws h₁.cursorRow (fun x y => ?_)
      fun r k hne => by rw [hcell, if_neg hne]
    rw [Grid.Ink, hcell, if_pos ⟨rfl, rfl⟩]
    constructor
    · intro hinked
      exact ⟨byte, rfl, hinked⟩
    · rintro ⟨_, heq, hinked⟩
      obtain rfl := Option.some.inj heq
      exact hinked
  exact ⟨hdrawn.ink, hdrawn.blank, hdrawn.below⟩

theorem backspace (h : Valid c) (hrows : 2 ≤ c.rows)
    (hstride : c.framebuffer.width ≤ c.framebuffer.stride) (hc : Control c g)
    (hshown : Shown c g) {accepted : Bool} (hrun : c.backspaceFromSession = some (accepted, c')) :
    Shown c' g.backspace := by
  by_cases haccepts : ∃ target, Accepts c target
  · obtain ⟨target, haccepts⟩ := haccepts
    obtain ⟨c₁, rowLengths, hdraws, hget, herase⟩ := backspace_accepts h haccepts
    obtain ⟨row, hlast, htarget, hg⟩ := hc.backspace_of_accepts h haccepts
    have hrow := (haccepts.lt h).2.1
    cases Option.some.inj (herase.symm.trans hrun)
    have hcell : ∀ r k, g.backspace.cell r k =
        if r = target.row ∧ k = target.column then none else g.cell r k := by
      intro r k
      rw [hg, htarget]
      exact Page.cell_eraseAt hlast r k
    have hdrawn : Shown c₁ g.backspace := by
      refine hshown.draws h hrows hstride hdraws hrow (fun x y => ?_)
        fun r k hne => by rw [hcell, if_neg hne]
      rw [Grid.Ink, hcell, if_pos ⟨rfl, rfl⟩]
      constructor
      · exact False.elim
      · rintro ⟨_, heq, -⟩
        cases heq
    exact ⟨hdrawn.ink, hdrawn.blank, hdrawn.below⟩
  · have hrejects : ∀ target, ¬ Accepts c target := fun target ht => haccepts ⟨target, ht⟩
    cases Option.some.inj ((backspace_rejects h hrejects).symm.trans hrun)
    rw [hc.backspace_of_rejects h hrejects]
    exact hshown

theorem cleared (h : Valid c) (hrows : 2 ≤ c.rows)
    (hstride : c.framebuffer.width ≤ c.framebuffer.stride) (hcleared : Cleared c c')
    (rows columns : Nat) : Shown c' (Grid.empty rows columns) := by
  have hblank := hcleared.blank hstride
  have hsame := hcleared.same
  refine ⟨fun row hrow column x y hx hcell => ?_, fun row hrow column x y hx hcell _ => ?_,
    fun x y hx _ hend => ?_⟩
  · rintro ⟨byte, hbyte, -⟩
    cases hbyte
  · rw [hsame.framebuffer] at hx
    rw [hsame.rows] at hrow
    rw [hsame.blank]
    exact hblank x y hx (hcell.visible h hrows hrow)
  · rw [hsame.framebuffer] at hx
    rw [hsame.visibleHeight] at hend
    rw [hsame.blank]
    exact hblank x y hx (Nat.lt_of_le_of_lt (Nat.le_add_right _ _) hend)

/-- **One operation.** -/
theorem apply (h : Valid c) (hrows : 2 ≤ c.rows)
    (hstride : c.framebuffer.width ≤ c.framebuffer.stride) (hc : Control c g)
    (hshown : Shown c g) (op : Op) (hrun : c.apply op = some c') : Shown c' (g.apply op) := by
  cases op with
  | clear =>
    obtain ⟨_, hclear, hcleared⟩ := c.clear_cleared
    obtain rfl := Option.some.inj (hclear.symm.trans hrun)
    exact cleared h hrows hstride hcleared _ _
  | beginTerminalSession =>
    obtain rfl := Option.some.inj hrun
    exact ⟨hshown.ink, hshown.blank, hshown.below⟩
  | writeTerminalByte byte =>
    obtain ⟨rfl, hnext⟩ | ⟨rfl, accepted, hback⟩ | ⟨⟨hline, herase⟩, hwrite⟩ :=
      writeTerminalByte_cases hrun
    · exact hshown.newLine h hrows hstride hc hnext
    · exact hshown.backspace h hrows hstride hc hback
    · rw [Grid.apply, if_neg hline, if_neg herase]
      exact hshown.write h hrows hstride hc byte hwrite

/-- **Any run.** -/
theorem run (h : Valid c) (hrows : 2 ≤ c.rows)
    (hstride : c.framebuffer.width ≤ c.framebuffer.stride) (hc : Control c g)
    (hshown : Shown c g) (ops : List Op) (hrun : c.run ops = some c') : Shown c' (g.run ops) := by
  induction ops generalizing c g with
  | nil =>
    obtain rfl := Option.some.inj hrun
    exact hshown
  | cons op ops ih =>
    obtain ⟨c₁, hstep, h₁, hsame⟩ := apply_valid h op
    rw [FramebufferConsole.run, List.foldlM_cons, hstep] at hrun
    exact ih h₁ (by rw [hsame.rows]; exact hrows) (by rw [hsame.framebuffer]; exact hstride)
      (hc.apply h hrows op hstep) (hshown.apply h hrows hstride hc op hstep) hrun

end Shown

/-! ## From `new` on -/

/-- A screen of 21 columns or more has room for the glyphs of all cells. -/
theorem glyph_on_screen (h : Valid c) (hwidth : 21 ≤ c.framebuffer.width)
    (hcolumn : column < c.columns) {i : Nat} (hi : i < glyphWidth) :
    paddingX + column * glyphAdvanceX + i < c.framebuffer.width := by
  rw [h.columns, usableColumns] at hcolumn
  by_cases hnarrow : c.framebuffer.width - paddingX * 2 < glyphWidth
  · rw [if_pos hnarrow] at hcolumn
    dsimp only [paddingX, glyphAdvanceX, glyphWidth] at hi ⊢
    omega
  · rw [if_neg hnarrow] at hcolumn
    dsimp only [paddingX, glyphAdvanceX, glyphWidth] at hi hnarrow hcolumn ⊢
    omega

/-- The pixel of a cell of the text, in its column `i` and its line `j`. -/
def glyphPixel (g : Grid) (row column i j : Nat) : Bool :=
  (g.cell row column).any fun byte => glyphBit (glyphFor byte) i j

theorem ink_iff {i j : Nat} (hi : i < glyphWidth) (hj : j < glyphHeight) :
    g.Ink column row (paddingX + column * glyphAdvanceX + i) (paddingY + row * glyphAdvanceY + j) ↔
      glyphPixel g row column i j = true := by
  rw [glyphPixel, Option.any_eq_true]
  constructor
  · rintro ⟨byte, hbyte, j', hj', i', hi', hbit, hx, hy⟩
    obtain rfl : i' = i := by omega
    obtain rfl : j' = j := by omega
    exact ⟨byte, hbyte, hbit⟩
  · rintro ⟨byte, hbyte, hbit⟩
    exact ⟨byte, hbyte, j, hj, i, hi, hbit, rfl, rfl⟩

theorem inCell_glyph {i j : Nat} (hi : i < glyphWidth) (hj : j < glyphHeight) :
    InCell column row (paddingX + column * glyphAdvanceX + i)
      (paddingY + row * glyphAdvanceY + j) :=
  inCell_iff.mpr ⟨j, hj, i, Nat.lt_of_lt_of_le hi (by decide), rfl, rfl⟩

theorem Shown.pixel_eq {i j : Nat} (hshown : Shown c g) (hrow : row < c.rows) (hi : i < glyphWidth)
    (hj : j < glyphHeight) (hx : paddingX + column * glyphAdvanceX + i < c.framebuffer.width) :
    c.pixel (paddingX + column * glyphAdvanceX + i) (paddingY + row * glyphAdvanceY + j) =
      if glyphPixel g row column i j then c.ink else c.blank := by
  by_cases hbit : glyphPixel g row column i j = true
  · rw [if_pos hbit]
    exact hshown.ink row hrow column _ _ hx (inCell_glyph hi hj) ((ink_iff hi hj).mpr hbit)
  · rw [if_neg hbit]
    exact hshown.blank row hrow column _ _ hx (inCell_glyph hi hj)
      fun hin => hbit ((ink_iff hi hj).mp hin)

/-- **After a `clear`**, any run shows the text of the same run. -/
theorem run_shown (framebuffer : FramebufferInfo) (foreground background : UInt32)
    (memory : Nat → UInt32) (ops : List Op)
    (hrows : 2 ≤ usableRows (visibleHeightPixels framebuffer))
    (hstride : framebuffer.width ≤ framebuffer.stride) :
    ∃ c, (new framebuffer foreground background memory).run (.clear :: ops) = some c ∧ Valid c ∧
      Same (new framebuffer foreground background memory) c ∧
      Control c ((Grid.empty c.rows c.columns).run ops) ∧
      Shown c ((Grid.empty c.rows c.columns).run ops) := by
  have h₀ := valid_new framebuffer foreground background memory
  have hrows₀ : 2 ≤ (new framebuffer foreground background memory).rows :=
    Nat.le_min.mpr ⟨hrows, by decide⟩
  obtain ⟨c₁, hclear, h₁, hsame₁⟩ := clear_valid h₀
  obtain ⟨c₁', hsome, hcleared⟩ := (new framebuffer foreground background memory).clear_cleared
  obtain rfl := Option.some.inj (hclear.symm.trans hsome)
  have hc₁ : Control c₁ (Grid.empty c₁.rows c₁.columns) :=
    Control.cleared h₀ hsame₁.rows hsame₁.columns hcleared
  have hshown₁ := Shown.cleared h₀ hrows₀ hstride hcleared c₁.rows c₁.columns
  have hrows₁ : 2 ≤ c₁.rows := by
    rw [hsame₁.rows]
    exact hrows₀
  have hstride₁ : c₁.framebuffer.width ≤ c₁.framebuffer.stride := by
    rw [hsame₁.framebuffer]
    exact hstride
  obtain ⟨c, hrun, h, hsame⟩ := run_valid h₁ ops
  refine ⟨c, ?_, h, hsame₁.trans hsame, ?_⟩
  · rw [run, List.foldlM_cons]
    show (new framebuffer foreground background memory).clear.bind _ = some c
    rw [hclear]
    exact hrun
  · rw [hsame.rows, hsame.columns]
    exact ⟨hc₁.run h₁ hrows₁ ops hrun, hshown₁.run h₁ hrows₁ hstride₁ hc₁ ops hrun⟩

/-- **The console refines the grid.** On a screen with two rows of text or more, after a `clear` and
any operations, the five by seven pixels of each cell are those of the glyph in that cell of the
text, as far as they are on the screen, and on a screen of 21 columns or more they all are. -/
theorem console_refines_grid (framebuffer : FramebufferInfo) (foreground background : UInt32)
    (memory : Nat → UInt32) (ops : List Op)
    (hrows : 2 ≤ usableRows (visibleHeightPixels framebuffer))
    (hstride : framebuffer.width ≤ framebuffer.stride) :
    ∃ c g, (new framebuffer foreground background memory).run (.clear :: ops) = some c ∧
      g = (Grid.empty c.rows c.columns).run ops ∧ c.cursor = g.cursor ∧ c.inputFloor = g.floor ∧
      ∀ row < c.rows, ∀ column < c.columns, ∀ i < glyphWidth, ∀ j < glyphHeight,
        let x := paddingX + column * glyphAdvanceX + i
        let y := paddingY + row * glyphAdvanceY + j
        y < c.visibleHeight ∧ (21 ≤ framebuffer.width → x < framebuffer.width) ∧
          (x < framebuffer.width → c.pixel x y =
            if glyphPixel g row column i j then c.encodeColor foreground
            else c.encodeColor background) := by
  obtain ⟨c, hrun, h, hsame, hc, hshown⟩ :=
    run_shown framebuffer foreground background memory ops hrows hstride
  refine ⟨c, _, hrun, rfl, ?_, hc.floor, ?_⟩
  · rw [cursor, Grid.cursor, hc.row, hc.column]
  · intro row hrow column hcolumn i hi j hj
    have hrows₁ : 2 ≤ c.rows := by
      rw [hsame.rows]
      exact Nat.le_min.mpr ⟨hrows, by decide⟩
    have hink : c.encodeColor foreground = c.ink := by
      rw [ink, hsame.foreground]
      rfl
    have hblank : c.encodeColor background = c.blank := by
      rw [blank, hsame.background]
      rfl
    rw [show framebuffer = c.framebuffer from hsame.framebuffer.symm, hink, hblank]
    have hcell := @inCell_glyph row column i j hi hj
    exact ⟨hcell.visible h hrows₁ hrow,
      fun hwide => glyph_on_screen h hwide hcolumn hi, hshown.pixel_eq hrow hi hj⟩

/-- The console refines the grid on a screen that has room for one glyph and two rows. -/
theorem console_refines_grid_at_small_screen :
    let framebuffer : FramebufferInfo := ⟨4096, 21 * 49 * 4, 21, 49, 21, .rgb⟩
    2 ≤ usableRows (visibleHeightPixels framebuffer) ∧ framebuffer.width ≤ framebuffer.stride ∧
      ∃ c g, (new framebuffer 0xf9fafb 0x111827 fun _ => 0).run
          [.clear, .writeTerminalByte 72, .beginTerminalSession] = some c ∧
        g = (Grid.empty c.rows c.columns).run [.writeTerminalByte 72, .beginTerminalSession] ∧
        c.cursor = g.cursor ∧ c.inputFloor = g.floor := by
  have hrows : 2 ≤ usableRows (visibleHeightPixels ⟨4096, 21 * 49 * 4, 21, 49, 21, .rgb⟩) := by
    decide
  obtain ⟨c, g, hrun, hg, hcursor, hfloor, -⟩ := console_refines_grid
    ⟨4096, 21 * 49 * 4, 21, 49, 21, .rgb⟩ 0xf9fafb 0x111827 (fun _ => 0)
    [.writeTerminalByte 72, .beginTerminalSession] hrows (Nat.le_refl _)
  exact ⟨hrows, Nat.le_refl _, c, g, hrun, hg, hcursor, hfloor⟩

/-- A framebuffer that is usable, and one column too narrow for a glyph. -/
def narrowFramebuffer : FramebufferInfo where
  base := 4096
  size := 20 * 49 * 4
  width := 20
  height := 49
  stride := 20
  format := .rgb

/-- **A narrow screen shows a part of the glyph.** The letter `H` has ink in its fifth column,
which would be the one right of the screen. -/
theorem narrow_glyph_clipped :
    ¬ ∀ (framebuffer : FramebufferInfo) (foreground background : UInt32) (memory : Nat → UInt32)
      (ops : List Op) (c : FramebufferConsole), framebuffer.isUsable = true →
      2 ≤ usableRows (visibleHeightPixels framebuffer) →
      (new framebuffer foreground background memory).run (.clear :: ops) = some c →
      ∀ row < c.rows, ∀ column < c.columns, ∀ i < glyphWidth, ∀ j < glyphHeight,
        c.pixel (paddingX + column * glyphAdvanceX + i) (paddingY + row * glyphAdvanceY + j) =
          if glyphPixel ((Grid.empty c.rows c.columns).run ops) row column i j then
            c.encodeColor foreground
          else c.encodeColor background := by
  intro hclaim
  have hpixel : ((new narrowFramebuffer 0xf9fafb 0x111827 fun _ => 0).run
      [.clear, .writeTerminalByte 72]).map
        (fun c => (c.rows, c.columns, c.pixel 20 16, c.encodeColor 0xf9fafb)) =
      some (2, 1, 0x271811, 0xfbfaf9) := by decide +kernel
  obtain ⟨c, hrun, heq⟩ := Option.map_eq_some_iff.mp hpixel
  obtain ⟨hrows, hcolumns, hblank, hink⟩ :
      c.rows = 2 ∧ c.columns = 1 ∧ c.pixel 20 16 = 0x271811 ∧ c.encodeColor 0xf9fafb = 0xfbfaf9 :=
    ⟨congrArg (·.1) heq, congrArg (·.2.1) heq, congrArg (·.2.2.1) heq, congrArg (·.2.2.2) heq⟩
  have hshown := hclaim narrowFramebuffer 0xf9fafb 0x111827 (fun _ => 0) [.writeTerminalByte 72] c
    (by decide) (by decide) hrun 0 (by rw [hrows]; decide) 0 (by rw [hcolumns]; decide) 4
    (by decide) 0 (by decide)
  have hglyph : glyphPixel ((Grid.empty 2 1).run [.writeTerminalByte 72]) 0 0 4 0 = true := by
    decide +kernel
  rw [hrows, hcolumns, if_pos hglyph, hink] at hshown
  exact absurd (hblank.symm.trans hshown) (by decide)

end FramebufferConsole

end Lazers.Framebuffer
