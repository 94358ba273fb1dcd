import Lazers.Framebuffer.Safety

/-!
# What a session leaves alone

A place of the screen is counted in the order of reading, in the rows that were on the screen when
the session began: after `n` scrolls, the cell in a row and a column is the one that was `n` rows
further down. `Beyond place n c₀ c` says that the cursor is not before `place` and that the cells
before it have the pixels that they had in `c₀`. Drawing at the cursor keeps this, and so does
`scroll_up`: a place that is on the screen and is scrolled up needs a second row, and then there is
only the regime that moves the pixels.

A backspace is another matter, since it goes where the lengths of the rows lead it. What keeps it
from going before `place` is the floor, which moves up with each scroll and stays in the top row
when its own row is gone (`FloorFrom`).
-/

namespace Lazers.Framebuffer

namespace FramebufferConsole

variable {c₀ c c' c₁ c₂ : FramebufferConsole} {place n : Nat}

/-! ## Counting scrolls -/

/-- The byte goes to a next line that is not on the screen. -/
def ScrollsOn (c : FramebufferConsole) (byte : UInt8) : Prop :=
  (byte = 10 ∨ byte ≠ 0x7f ∧ c.cursorColumn ≥ c.columns) ∧ c.cursorRow + 1 ≥ c.rows

instance (c : FramebufferConsole) (byte : UInt8) : Decidable (c.ScrollsOn byte) :=
  inferInstanceAs (Decidable (_ ∧ _))

/-- How often some bytes make `scroll_up` run. -/
def scrolls (c : FramebufferConsole) : List UInt8 → Nat
  | [] => 0
  | byte :: bytes =>
    (if c.ScrollsOn byte then 1 else 0) +
      match c.writeTerminalByte byte with
      | some c => c.scrolls bytes
      | none => 0

/-- A byte that is neither a new line nor a backspace. -/
def Drawn (byte : UInt8) : Prop := byte ≠ 10 ∧ byte ≠ 0x7f

theorem writeTerminalByte_of_drawn {byte : UInt8} (hdrawn : Drawn byte) :
    c.writeTerminalByte byte = c.writeByte byte := by
  rw [writeTerminalByte, if_neg hdrawn.1, if_neg hdrawn.2]

theorem scrollsOn_of_drawn {byte : UInt8} (hdrawn : Drawn byte) :
    c.ScrollsOn byte ↔ c.cursorColumn ≥ c.columns ∧ c.cursorRow + 1 ≥ c.rows := by
  rw [ScrollsOn]
  constructor
  · rintro ⟨hnext | ⟨-, hfull⟩, hrow⟩
    · exact absurd hnext hdrawn.1
    · exact ⟨hfull, hrow⟩
  · rintro ⟨hfull, hrow⟩
    exact ⟨.inr ⟨hdrawn.2, hfull⟩, hrow⟩

theorem scrolls_cons {byte : UInt8} {bytes : List UInt8}
    (hstep : c.writeTerminalByte byte = some c') :
    c.scrolls (byte :: bytes) = (if c.ScrollsOn byte then 1 else 0) + c'.scrolls bytes := by
  rw [scrolls, hstep]

theorem writeTerminalBytes_cons {byte : UInt8} {bytes : List UInt8}
    (hstep : c.writeTerminalByte byte = some c') :
    c.writeTerminalBytes (byte :: bytes) = c'.writeTerminalBytes bytes := by
  rw [writeTerminalBytes, List.foldlM_cons, hstep]
  rfl

/-! ## Places -/

/-- The place of a cell in the order of reading, `n` scrolls before. -/
def placeOf (c : FramebufferConsole) (n row column : Nat) : Nat := (row + n) * c.columns + column

/-- The cells before `place` have the pixels that they had `n` scrolls before. -/
def Kept (place n : Nat) (c₀ c : FramebufferConsole) : Prop :=
  ∀ row, ∀ column < c.columns, c.placeOf n row column < place → ∀ x y, x < c.framebuffer.width →
    InCell column row x y → c.pixel x y = c₀.pixel x (y + n * glyphAdvanceY)

/-- **At or behind `place`**, with everything before it as it was. -/
structure Beyond (place n : Nat) (c₀ c : FramebufferConsole) : Prop where
  valid : Valid c
  same : Same c₀ c
  cursor : place ≤ c.placeOf n c.cursorRow c.cursorColumn
  kept : c.framebuffer.width ≤ c.framebuffer.stride → Kept place n c₀ c

/-- Nothing before `place` is in a session. -/
def FloorFrom (place n : Nat) (c : FramebufferConsole) : Prop :=
  ∀ floor, c.inputFloor = some floor →
    floor.column ≤ c.columns ∧ place ≤ c.placeOf n floor.row floor.column

theorem placeOf_congr (h : c'.columns = c.columns) (row column : Nat) :
    c'.placeOf n row column = c.placeOf n row column := by
  rw [placeOf, placeOf, h]

theorem Beyond.start (h : Valid c) : Beyond (c.placeOf 0 c.cursorRow c.cursorColumn) 0 c c where
  valid := h
  same := Same.refl
  cursor := Nat.le_refl _
  kept := fun _ row column _ _ x y _ _ => by rw [Nat.zero_mul, Nat.add_zero]

/-- A pixel before the place, in terms of what was there. -/
theorem Beyond.pixel_eq {row column x y : Nat} (h : Beyond place n c₀ c)
    (hstride : c₀.framebuffer.width ≤ c₀.framebuffer.stride) (hcolumn : column < c₀.columns)
    (hbefore : c₀.placeOf n row column < place) (hx : x < c₀.framebuffer.width)
    (hcell : InCell column row x y) : c.pixel x y = c₀.pixel x (y + n * glyphAdvanceY) := by
  rw [← h.same.framebuffer] at hstride hx
  rw [← h.same.columns] at hcolumn
  rw [← placeOf_congr h.same.columns] at hbefore
  exact h.kept hstride row column hcolumn hbefore x y hx hcell

/-- The place is on the screen at first. -/
theorem placeOf_le (h : Valid c) :
    c.placeOf 0 c.cursorRow c.cursorColumn ≤ c.rows * c.columns := by
  have hmul : (c.cursorRow + 1) * c.columns ≤ c.rows * c.columns :=
    Nat.mul_le_mul_right _ h.cursorRow
  have hcolumn := h.cursorColumn
  rw [Nat.succ_mul] at hmul
  rw [placeOf, Nat.add_zero]
  omega

/-! ## Lines -/

theorem Kept.draws {column row : Nat} {mask : Nat → Nat → Prop}
    (hstride : c.framebuffer.width ≤ c.framebuffer.stride) (hkept : Kept place n c₀ c)
    (hdraws : Draws column row mask c c₁) (hplace : place ≤ c.placeOf n row column) :
    Kept place n c₀ c₁ := by
  have houtside := hdraws.outside hstride
  obtain ⟨pixels, rfl⟩ := hdraws.exists_pixels
  intro r k hk hbefore x y hx hcell
  rw [← hkept r k hk hbefore x y hx hcell]
  refine houtside x y hx fun hdrawn => ?_
  obtain ⟨rfl, rfl⟩ := hcell.inj hdrawn
  exact Nat.not_lt.mpr hplace hbefore

/-- **A cell that stays on the screen** moves up with its pixels. -/
theorem Kept.scrolls (h : Valid c) (hstride : c.framebuffer.width ≤ c.framebuffer.stride)
    (hplace : place ≤ c.rows * c.columns) (hkept : Kept place n c₀ c)
    (hscrolls : ScrollsUp c c₁) : Kept place (n + 1) c₀ c₁ := by
  intro row column hcolumn hbefore x y hx hcell
  have hsame := hscrolls.same
  rw [hsame.columns] at hcolumn
  rw [hsame.framebuffer] at hx
  rw [placeOf, hsame.columns] at hbefore
  -- the row below is before the place as well, and so it is on the screen
  have hrow : row + 1 < c.rows := by
    have hindex := (@index_lt c.columns column (row + (n + 1)) c.rows hcolumn).mp
      (Nat.lt_of_lt_of_le hbefore hplace)
    omega
  have hfits := h.row_fits (by omega) hrow
  have hnext := hcell.next
  have hend := hnext.2.2
  cases hscrolls with
  | cleared hheight _ =>
    dsimp only [paddingY, glyphAdvanceY, glyphHeight] at hfits
    omega
  | banded hheight _ =>
    dsimp only [paddingY, glyphAdvanceY, glyphHeight] at hfits
    omega
  | shifted _ hscrolled =>
    have htop : paddingY ≤ y := Nat.le_trans (Nat.le_add_right _ _) hcell.2.1
    rw [hscrolled.moved hstride x y hx htop (by omega),
      hkept (row + 1) column hcolumn ?_ x _ hx hnext]
    · congr 1
      rw [Nat.succ_mul]
      omega
    · rw [placeOf, show row + 1 + n = row + (n + 1) by omega]
      exact hbefore

theorem placeOf_next (c : FramebufferConsole) {row column : Nat} (hcolumn : column ≤ c.columns) :
    c.placeOf n row column ≤ c.placeOf n (row + 1) 0 := by
  rw [placeOf, placeOf, show row + 1 + n = row + n + 1 by omega, Nat.succ_mul]
  omega

theorem placeOf_succ (c : FramebufferConsole) (row column : Nat) :
    c.placeOf (n + 1) row column = c.placeOf n (row + 1) column := by
  rw [placeOf, placeOf, show row + (n + 1) = row + 1 + n by omega]

theorem Beyond.newLine (hplace : place ≤ c₀.rows * c₀.columns) (h : Beyond place n c₀ c)
    (hrun : c.newLine = some c') :
    Beyond place (n + if c.cursorRow + 1 ≥ c.rows then 1 else 0) c₀ c' := by
  obtain ⟨_, hsome, hvalid, hsame, -⟩ := newLine_valid h.valid
  obtain rfl := Option.some.inj (hsome.symm.trans hrun)
  have hcursor := Nat.le_trans h.cursor (c.placeOf_next h.valid.cursorColumn)
  refine ⟨hvalid, h.same.trans hsame, ?_, ?_⟩
  all_goals obtain ⟨hrow, hnext⟩ | ⟨hrow, c₁, hscrolls, hlast⟩ := newLine_cases h.valid
  · obtain rfl := Option.some.inj (hnext.symm.trans hrun)
    rw [if_neg (Nat.not_le.mpr hrow)]
    exact hcursor
  · obtain rfl := Option.some.inj (hlast.symm.trans hrun)
    have hrows := hscrolls.same.rows
    have hcolumns := hscrolls.same.columns
    rw [if_pos (Nat.le_of_eq hrow.symm), hscrolls.column_eq_zero, placeOf_succ, placeOf]
    dsimp only at hrows hcolumns ⊢
    rw [hrows, hcolumns, ← hrow, Nat.add_sub_cancel]
    exact hcursor
  · obtain rfl := Option.some.inj (hnext.symm.trans hrun)
    rw [if_neg (Nat.not_le.mpr hrow)]
    exact h.kept
  · obtain rfl := Option.some.inj (hlast.symm.trans hrun)
    rw [if_pos (Nat.le_of_eq hrow.symm)]
    intro hstride
    dsimp only at hstride
    rw [hscrolls.same.framebuffer] at hstride
    rw [← h.same.rows, ← h.same.columns] at hplace
    have hkept : Kept place n c₀ { c with cursorColumn := 0 } := h.kept hstride
    have hmoved : Kept place (n + 1) c₀ c₁ :=
      hkept.scrolls h.valid.lineStart hstride hplace hscrolls
    exact hmoved

/-- **The floor moves with the text**, up to the top row. -/
theorem FloorFrom.newLine (h : Valid c) (hfloor : FloorFrom place n c)
    (hrun : c.newLine = some c') :
    FloorFrom place (n + if c.cursorRow + 1 ≥ c.rows then 1 else 0) c' := by
  obtain ⟨hrow, hnext⟩ | ⟨hrow, c₁, hscrolls, hlast⟩ := newLine_cases h
  · obtain rfl := Option.some.inj (hnext.symm.trans hrun)
    rw [if_neg (Nat.not_le.mpr hrow)]
    exact hfloor
  · obtain rfl := Option.some.inj (hlast.symm.trans hrun)
    rw [if_pos (Nat.le_of_eq hrow.symm)]
    intro floor hsome
    have hcolumns : c₁.columns = c.columns := hscrolls.same.columns
    show floor.column ≤ c₁.columns ∧ place ≤ c₁.placeOf (n + 1) floor.row floor.column
    rw [placeOf_succ, placeOf, hcolumns]
    cases hscrolls with
    | cleared _ hcleared =>
      rw [hcleared.frame] at hsome
      cases hsome
    | banded _ hpaints =>
      rw [hpaints.frame] at hsome
      obtain ⟨hcolumn, hplace⟩ := hfloor floor hsome
      refine ⟨hcolumn, Nat.le_trans hplace ?_⟩
      exact Nat.add_le_add_right (Nat.mul_le_mul_right _ (by omega)) _
    | shifted _ hscrolled =>
      rw [hscrolled.frame] at hsome
      obtain ⟨old, hold, rfl⟩ := Option.map_eq_some_iff.mp hsome
      obtain ⟨hcolumn, hplace⟩ := hfloor old hold
      refine ⟨hcolumn, Nat.le_trans hplace ?_⟩
      -- in the top row the floor does not move, and is further behind
      have hmove : old.row + n ≤ old.row - 1 + 1 + n := by omega
      exact Nat.add_le_add_right (Nat.mul_le_mul_right _ hmove) _

/-! ## Bytes -/

theorem Beyond.wrap (hplace : place ≤ c₀.rows * c₀.columns) (h : Beyond place n c₀ c)
    (hrun : c.wrap = some c') :
    Beyond place (n + if c.cursorColumn ≥ c.columns ∧ c.cursorRow + 1 ≥ c.rows then 1 else 0)
      c₀ c' := by
  rw [FramebufferConsole.wrap] at hrun
  by_cases hfull : c.cursorColumn ≥ c.columns
  · rw [if_pos hfull] at hrun
    simp only [hfull, true_and]
    exact h.newLine hplace hrun
  · rw [if_neg hfull] at hrun
    obtain rfl := Option.some.inj hrun
    rw [if_neg fun hboth => hfull hboth.1]
    exact h

theorem FloorFrom.wrap (h : Valid c) (hfloor : FloorFrom place n c) (hrun : c.wrap = some c') :
    FloorFrom place (n + if c.cursorColumn ≥ c.columns ∧ c.cursorRow + 1 ≥ c.rows then 1 else 0)
      c' := by
  rw [FramebufferConsole.wrap] at hrun
  by_cases hfull : c.cursorColumn ≥ c.columns
  · rw [if_pos hfull] at hrun
    simp only [hfull, true_and]
    exact hfloor.newLine h hrun
  · rw [if_neg hfull] at hrun
    obtain rfl := Option.some.inj hrun
    rw [if_neg fun hboth => hfull hboth.1]
    exact hfloor

/-- **A byte that is drawn** is drawn behind the place. -/
theorem Beyond.writeByte (hplace : place ≤ c₀.rows * c₀.columns) (h : Beyond place n c₀ c)
    {byte : UInt8} (hrun : c.writeByte byte = some c') :
    Beyond place (n + if c.cursorColumn ≥ c.columns ∧ c.cursorRow + 1 ≥ c.rows then 1 else 0)
      c₀ c' := by
  obtain ⟨_, hsome, hvalid, hsame⟩ := writeByte_valid h.valid byte
  obtain rfl := Option.some.inj (hsome.symm.trans hrun)
  obtain ⟨c₁, c₂, rowLengths, hwrap, hdraws, hget, hwrite⟩ := writeByte_spec h.valid byte
  obtain rfl := Option.some.inj (hwrite.symm.trans hrun)
  have h₁ := h.wrap hplace hwrap
  have hsame₂ := (hdraws.valid h₁.valid).2
  refine ⟨hvalid, h.same.trans hsame, ?_, fun hstride => ?_⟩
  · refine Nat.le_trans h₁.cursor ?_
    have hframe := hdraws.frame
    rw [hframe]
    exact Nat.le_succ _
  · have hstride₁ : c₁.framebuffer.width ≤ c₁.framebuffer.stride := by
      rw [← hsame₂.framebuffer]
      exact hstride
    have hkept : Kept place _ c₀ c₂ := (h₁.kept hstride₁).draws hstride₁ hdraws h₁.cursor
    exact hkept

theorem FloorFrom.writeByte (h : Valid c) (hfloor : FloorFrom place n c) {byte : UInt8}
    (hrun : c.writeByte byte = some c') :
    FloorFrom place (n + if c.cursorColumn ≥ c.columns ∧ c.cursorRow + 1 ≥ c.rows then 1 else 0)
      c' := by
  obtain ⟨c₁, c₂, rowLengths, hwrap, hdraws, hget, hwrite⟩ := writeByte_spec h byte
  obtain rfl := Option.some.inj (hwrite.symm.trans hrun)
  have hfloor₁ := hfloor.wrap h hwrap
  obtain ⟨pixels, rfl⟩ := hdraws.exists_pixels
  exact hfloor₁

/-- **The floor holds.** What a backspace erases is not before the place. -/
theorem Accepts.beyond (hfloor : FloorFrom place n c) {target : ConsoleCursor}
    (haccepts : Accepts c target) : place ≤ c.placeOf n target.row target.column := by
  obtain ⟨floor, hsome, hnotBefore⟩ := haccepts.floor
  obtain ⟨hcolumn, hplace⟩ := hfloor floor hsome
  refine Nat.le_trans hplace ?_
  rw [ConsoleCursor.Before] at hnotBefore
  -- in a later row the column does not matter: the floor is at most at the end of its row
  by_cases hrow : floor.row = target.row
  · rw [placeOf, placeOf, hrow]
    omega
  · refine Nat.le_trans (c.placeOf_next hcolumn) ?_
    exact Nat.add_le_add (Nat.mul_le_mul_right _ (by omega)) (Nat.zero_le _)

theorem Beyond.backspace (h : Beyond place n c₀ c) (hfloor : FloorFrom place n c) {accepted : Bool}
    (hrun : c.backspaceFromSession = some (accepted, c')) :
    Beyond place n c₀ c' ∧ FloorFrom place n c' := by
  obtain ⟨_, _, hsome, hvalid, hsame⟩ := backspace_valid h.valid
  cases Option.some.inj (hsome.symm.trans hrun)
  obtain hnone | ⟨target, c₁, rowLengths, haccepts, hdraws, hget, herase⟩ := backspace_cases h.valid
  · cases Option.some.inj (hnone.symm.trans hrun)
    exact ⟨h, hfloor⟩
  · cases Option.some.inj (herase.symm.trans hrun)
    have htarget := haccepts.beyond hfloor
    have hsame₁ := (hdraws.valid h.valid).2
    refine ⟨⟨hvalid, h.same.trans hsame, ?_, fun hstride => ?_⟩, ?_⟩
    · rw [hdraws.frame]
      exact htarget
    · have hstride₀ : c.framebuffer.width ≤ c.framebuffer.stride := by
        rw [← hsame₁.framebuffer]
        exact hstride
      have hkept : Kept place n c₀ c₁ := (h.kept hstride₀).draws hstride₀ hdraws htarget
      exact hkept
    · rw [hdraws.frame]
      exact hfloor

/-- **One byte.** -/
theorem Beyond.writeTerminalByte (hplace : place ≤ c₀.rows * c₀.columns) (h : Beyond place n c₀ c)
    (hfloor : FloorFrom place n c) {byte : UInt8} (hrun : c.writeTerminalByte byte = some c') :
    Beyond place (n + if c.ScrollsOn byte then 1 else 0) c₀ c' ∧
      FloorFrom place (n + if c.ScrollsOn byte then 1 else 0) c' := by
  obtain ⟨rfl, hnext⟩ | ⟨rfl, accepted, hback⟩ | ⟨hdrawn, hwrite⟩ := writeTerminalByte_cases hrun
  · simp only [ScrollsOn, true_or, true_and]
    exact ⟨h.newLine hplace hnext, hfloor.newLine h.valid hnext⟩
  · have hstays : ¬ c.ScrollsOn 0x7f := by
      rintro ⟨hnext | ⟨hdraw, -⟩, -⟩
      · exact absurd hnext (by decide)
      · exact hdraw rfl
    rw [if_neg hstays]
    exact h.backspace hfloor hback
  · simp only [scrollsOn_of_drawn hdrawn]
    exact ⟨h.writeByte hplace hwrite, hfloor.writeByte h.valid hwrite⟩

/-- **Any bytes.** -/
theorem Beyond.writeTerminalBytes (hplace : place ≤ c₀.rows * c₀.columns) (bytes : List UInt8)
    (h : Beyond place n c₀ c) (hfloor : FloorFrom place n c) :
    ∃ c', c.writeTerminalBytes bytes = some c' ∧ Beyond place (n + c.scrolls bytes) c₀ c' ∧
      FloorFrom place (n + c.scrolls bytes) c' := by
  induction bytes generalizing c n with
  | nil => exact ⟨c, rfl, h, hfloor⟩
  | cons byte bytes ih =>
    obtain ⟨c₁, hstep, -⟩ := writeTerminalByte_valid h.valid byte
    obtain ⟨h₁, hfloor₁⟩ := h.writeTerminalByte hplace hfloor hstep
    obtain ⟨c', hrun, hrest⟩ := ih h₁ hfloor₁
    refine ⟨c', (writeTerminalBytes_cons hstep).trans hrun, ?_⟩
    rw [scrolls_cons hstep, ← Nat.add_assoc]
    exact hrest

/-! ## Sessions -/

/-- Before the first byte of a session. -/
theorem Beyond.begin (h : Valid c) :
    Beyond (c.placeOf 0 c.cursorRow c.cursorColumn) 0 c.beginTerminalSession
        c.beginTerminalSession ∧
      FloorFrom (c.placeOf 0 c.cursorRow c.cursorColumn) 0 c.beginTerminalSession := by
  refine ⟨Beyond.start (begin_valid h).1, fun floor hfloor => ?_⟩
  obtain rfl := Option.some.inj hfloor
  exact ⟨h.cursorColumn, Nat.le_refl _⟩

/-- **A session leaves the text before it alone.** From any state of the console, after
`begin_terminal_session` and any bytes with `n` scrolls between them, one more `0x7f` erases nothing
before the place where the session began; and what is still on the screen of the text before that
place is what was there, `n` rows up, and stays so with the `0x7f`. -/
theorem session_floor (framebuffer : FramebufferInfo) (foreground background : UInt32)
    (memory : Nat → UInt32) (ops : List Op) :
    ∃ c, (new framebuffer foreground background memory).run ops = some c ∧
      ∀ bytes, ∃ c₁ accepted c₂, c.beginTerminalSession.writeTerminalBytes bytes = some c₁ ∧
        c₁.backspaceFromSession = some (accepted, c₂) ∧ c₁.writeTerminalByte 0x7f = some c₂ ∧
        let place := c.placeOf 0 c.cursorRow c.cursorColumn
        let n := c.beginTerminalSession.scrolls bytes
        (accepted = true → place ≤ c.placeOf n c₂.cursorRow c₂.cursorColumn) ∧
          (framebuffer.width ≤ framebuffer.stride → ∀ row, ∀ column < c.columns,
            c.placeOf n row column < place → ∀ x y, x < framebuffer.width →
            InCell column row x y → c₁.pixel x y = c.pixel x (y + n * glyphAdvanceY) ∧
              c₂.pixel x y = c₁.pixel x y) := by
  obtain ⟨c, hrun, h, hsame₀⟩ :=
    run_valid (valid_new framebuffer foreground background memory) ops
  refine ⟨c, hrun, fun bytes => ?_⟩
  obtain ⟨hbegin, hfloor⟩ := Beyond.begin h
  have hplace : c.placeOf 0 c.cursorRow c.cursorColumn ≤
      c.beginTerminalSession.rows * c.beginTerminalSession.columns := placeOf_le h
  obtain ⟨c₁, hbytes, h₁, hfloor₁⟩ := hbegin.writeTerminalBytes hplace bytes hfloor
  rw [Nat.zero_add] at h₁ hfloor₁
  obtain ⟨accepted, c₂, herase, -, -⟩ := backspace_valid h₁.valid
  obtain ⟨h₂, -⟩ := h₁.backspace hfloor₁ herase
  have hcolumns₂ : c₂.columns = c.columns := h₂.same.columns
  refine ⟨c₁, accepted, c₂, hbytes, herase, ?_, fun _ => ?_, fun hstride => ?_⟩
  · rw [writeTerminalByte, if_neg (by decide), if_pos rfl, herase]
    rfl
  · have hcursor := h₂.cursor
    rw [placeOf_congr hcolumns₂] at hcursor
    exact hcursor
  · intro row column hcolumn hbefore x y hx hcell
    rw [show framebuffer = c.framebuffer from hsame₀.framebuffer.symm] at hstride hx
    have hkept₁ := h₁.pixel_eq hstride hcolumn hbefore hx hcell
    have hkept₂ := h₂.pixel_eq hstride hcolumn hbefore hx hcell
    exact ⟨hkept₁, hkept₂.trans hkept₁.symm⟩

end FramebufferConsole

end Lazers.Framebuffer
