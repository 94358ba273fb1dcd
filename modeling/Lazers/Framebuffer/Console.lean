import Lazers.Framebuffer.Font
import Lazers.Lib.Cells

/-!
# The framebuffer console (`console.rs`)

A text cell is a glyph of five by seven pixels with two columns and three rows between it and the
next, inside a padding of sixteen pixels. The console keeps its cursor, how far each row is written
and, in a terminal session, the cell that backspace does not go past.

`pixels` is the memory from the framebuffer's address on. The code reaches it through the slice of
`pixels_mut`, and an access out of bounds is a panic, `none`.
-/

namespace Lazers.Framebuffer

def paddingX : Nat := 16
def paddingY : Nat := 16
def glyphAdvanceX : Nat := glyphWidth + 2
def glyphAdvanceY : Nat := glyphHeight + 3
def maxTrackedRows : Nat := 512

inductive PixelFormat where
  | unknown
  | rgb
  | bgr
deriving DecidableEq, Repr

/-- `PixelFormat::is_direct`. -/
def PixelFormat.isDirect (format : PixelFormat) : Bool := format = .rgb ∨ format = .bgr

structure FramebufferInfo where
  base : Nat
  size : Nat
  width : Nat
  height : Nat
  stride : Nat
  format : PixelFormat
deriving DecidableEq, Repr

/-- `FramebufferInfo::is_usable`, which the loader and the kernel check. -/
def FramebufferInfo.isUsable (framebuffer : FramebufferInfo) : Bool :=
  framebuffer.base ≠ 0 ∧ framebuffer.size ≠ 0 ∧ framebuffer.width ≠ 0 ∧ framebuffer.height ≠ 0 ∧
    framebuffer.stride ≥ framebuffer.width ∧ framebuffer.format.isDirect

/-- `visible_height_pixels`. -/
def visibleHeightPixels (framebuffer : FramebufferInfo) : Nat :=
  let maxPixels := framebuffer.size / 4
  let rowsFromSize := if framebuffer.stride = 0 then 0 else maxPixels / framebuffer.stride
  min framebuffer.height rowsFromSize

/-- `usable_columns`. -/
def usableColumns (width : Nat) : Nat :=
  let usableWidth := width - paddingX * 2
  if usableWidth < glyphWidth then 1 else 1 + (usableWidth - glyphWidth) / glyphAdvanceX

/-- `usable_rows`. -/
def usableRows (visibleHeight : Nat) : Nat :=
  let usableHeight := visibleHeight - paddingY * 2
  if usableHeight < glyphHeight then 1 else 1 + (usableHeight - glyphHeight) / glyphAdvanceY

structure ConsoleCursor where
  column : Nat
  row : Nat
deriving DecidableEq, Repr

structure FramebufferConsole where
  framebuffer : FramebufferInfo
  foreground : UInt32
  background : UInt32
  visibleHeight : Nat
  columns : Nat
  rows : Nat
  cursorColumn : Nat
  cursorRow : Nat
  rowLengths : Cells Nat
  inputFloor : Option ConsoleCursor
  pixels : Cells UInt32

namespace FramebufferConsole

/-- `FramebufferConsole::new`, over memory with any contents. -/
def new (framebuffer : FramebufferInfo) (foreground background : UInt32) (memory : Nat → UInt32) :
    FramebufferConsole where
  framebuffer
  foreground
  background
  visibleHeight := visibleHeightPixels framebuffer
  columns := usableColumns framebuffer.width
  rows := min (usableRows (visibleHeightPixels framebuffer)) maxTrackedRows
  cursorColumn := 0
  cursorRow := 0
  rowLengths := { get := fun _ => 0, bound := 0 }
  inputFloor := none
  pixels := { get := memory, bound := 0 }

/-- The length of the slice of `pixels_mut`. -/
def visiblePixels (c : FramebufferConsole) : Nat := c.visibleHeight * c.framebuffer.stride

/-- `encode_color`. -/
def encodeColor (c : FramebufferConsole) (rgb : UInt32) : UInt32 :=
  let red := (rgb >>> 16) &&& 0xff
  let green := (rgb >>> 8) &&& 0xff
  let blue := rgb &&& 0xff
  match c.framebuffer.format with
  | .rgb => red ||| (green <<< 8) ||| (blue <<< 16)
  | .bgr => blue ||| (green <<< 8) ||| (red <<< 16)
  | .unknown => rgb

/-- `cursor`. -/
def cursor (c : FramebufferConsole) : ConsoleCursor := ⟨c.cursorColumn, c.cursorRow⟩

/-! ## Pixels -/

/-- `clear`. -/
def clear (c : FramebufferConsole) : Option FramebufferConsole := do
  let pixel := c.encodeColor c.background
  let pixels ← c.pixels.fill c.visiblePixels 0 c.visiblePixels pixel
  let rowLengths ← c.rowLengths.fill maxTrackedRows 0 maxTrackedRows 0
  return { c with pixels, cursorColumn := 0, cursorRow := 0, rowLengths, inputFloor := none }

/-- `put_pixel`. -/
def putPixel (c : FramebufferConsole) (x y : Nat) (pixel : UInt32) : Option FramebufferConsole :=
  if x ≥ c.framebuffer.width ∨ y ≥ c.visibleHeight then some c
  else
    let index := y * c.framebuffer.stride + x
    if index ≥ c.visiblePixels then some c
    else do
      let pixels ← c.pixels.write c.visiblePixels index pixel
      return { c with pixels }

/-- The two loops that `draw_glyph` and `clear_glyph_area` have: a pixel of one color, where the
mask has one. -/
def paint (c : FramebufferConsole) (originX originY width height : Nat) (mask : Nat → Nat → Bool)
    (pixel : UInt32) : Option FramebufferConsole :=
  (List.range height).foldlM (fun c row =>
    (List.range width).foldlM (fun c column =>
      if mask column row then c.putPixel (originX + column) (originY + row) pixel else some c) c) c

/-- `draw_glyph`. -/
def drawGlyph (c : FramebufferConsole) (originX originY : Nat) (glyph : Glyph) :
    Option FramebufferConsole :=
  c.paint originX originY glyphWidth glyphHeight (glyphBit glyph) (c.encodeColor c.foreground)

/-- `clear_glyph_area`. -/
def clearGlyphArea (c : FramebufferConsole) (originX originY : Nat) : Option FramebufferConsole :=
  c.paint originX originY glyphAdvanceX glyphHeight (fun _ _ => true) (c.encodeColor c.background)

/-- `clear_cell`. -/
def clearCell (c : FramebufferConsole) (column row : Nat) : Option FramebufferConsole :=
  c.clearGlyphArea (paddingX + column * glyphAdvanceX) (paddingY + row * glyphAdvanceY)

/-- `clear_band`. -/
def clearBand (c : FramebufferConsole) (startY endY : Nat) : Option FramebufferConsole :=
  let pixel := c.encodeColor c.background
  (List.range (endY - startY)).foldlM (fun c i => do
    let rowStart := (startY + i) * c.framebuffer.stride
    let rowEnd := rowStart + c.framebuffer.stride
    let pixels ← c.pixels.fill c.visiblePixels rowStart rowEnd pixel
    return { c with pixels }) c

/-! ## Lines -/

/-- `scroll_up`. -/
def scrollUp (c : FramebufferConsole) : Option FramebufferConsole :=
  let top := min paddingY c.visibleHeight
  let bottom := c.visibleHeight - paddingY
  -- no line between the paddings
  if bottom ≤ top then c.clear
  -- no second row: only the pixels go, the lengths of the rows and the floor stay
  else if bottom - top ≤ glyphAdvanceY then c.clearBand top bottom
  else do
    let stride := c.framebuffer.stride
    let shift := glyphAdvanceY
    let sourceStart := (top + shift) * stride
    let sourceEnd := bottom * stride
    let destinationStart := top * stride
    let pixels ← c.pixels.copyWithin c.visiblePixels sourceStart sourceEnd destinationStart
    let rowLengths ← c.rowLengths.copyWithin maxTrackedRows 1 c.rows 0
    let rowLengths ← rowLengths.write maxTrackedRows (c.rows - 1) 0
    -- in the top row the floor stays where it is
    let inputFloor := c.inputFloor.map fun floor => { floor with row := floor.row - 1 }
    { c with pixels, rowLengths, inputFloor }.clearBand (bottom - shift) bottom

/-- `new_line`. -/
def newLine (c : FramebufferConsole) : Option FramebufferConsole :=
  let c := { c with cursorColumn := 0 }
  if c.cursorRow + 1 ≥ c.rows then do
    let c ← c.scrollUp
    return { c with cursorRow := c.rows - 1 }
  else some { c with cursorRow := c.cursorRow + 1 }

/-- `write_byte`. -/
def writeByte (c : FramebufferConsole) (byte : UInt8) : Option FramebufferConsole := do
  -- a row that is full is left only now
  let c ← if c.cursorColumn ≥ c.columns then c.newLine else some c
  let originX := paddingX + c.cursorColumn * glyphAdvanceX
  let originY := paddingY + c.cursorRow * glyphAdvanceY
  let c ← c.clearGlyphArea originX originY
  let c ← c.drawGlyph originX originY (glyphFor byte)
  let c := { c with cursorColumn := c.cursorColumn + 1 }
  let length ← c.rowLengths.read maxTrackedRows c.cursorRow
  let rowLengths ← c.rowLengths.write maxTrackedRows c.cursorRow (max length c.cursorColumn)
  return { c with rowLengths }

/-! ## Backspace -/

/-- The loop of `previous_cursor_position`; its own `None` is inside. -/
def lastWrittenAbove (c : FramebufferConsole) : (row : Nat) → Option (Option ConsoleCursor)
  | 0 => some none
  | row + 1 => do
    let length ← c.rowLengths.read maxTrackedRows row
    if length > 0 then return some ⟨length - 1, row⟩
    else c.lastWrittenAbove row

/-- `previous_cursor_position`. -/
def previousCursorPosition (c : FramebufferConsole) : Option (Option ConsoleCursor) :=
  if c.cursorColumn > 0 then some (some ⟨c.cursorColumn - 1, c.cursorRow⟩)
  else c.lastWrittenAbove c.cursorRow

/-- `backspace_from_session`. -/
def backspaceFromSession (c : FramebufferConsole) : Option (Bool × FramebufferConsole) :=
  match c.inputFloor with
  | none => some (false, c)
  | some floor =>
    let cursor := c.cursor
    if cursor.row = floor.row ∧ cursor.column = floor.column then some (false, c)
    else do
      match ← c.previousCursorPosition with
      | none => return (false, c)
      | some target =>
        if target.row < floor.row ∨ target.row = floor.row ∧ target.column < floor.column then
          return (false, c)
        else
          let c ← c.clearCell target.column target.row
          let rowLengths ← c.rowLengths.write maxTrackedRows target.row target.column
          return (true, { c with
            cursorColumn := target.column, cursorRow := target.row, rowLengths })

/-! ## The operations -/

/-- `begin_terminal_session`. -/
def beginTerminalSession (c : FramebufferConsole) : FramebufferConsole :=
  { c with inputFloor := some c.cursor }

/-- `write_terminal_byte`. -/
def writeTerminalByte (c : FramebufferConsole) (byte : UInt8) : Option FramebufferConsole :=
  if byte = 10 then c.newLine
  else if byte = 0x7f then do
    let (_, c) ← c.backspaceFromSession
    return c
  else c.writeByte byte

/-- Some bytes, one after the other. -/
def writeTerminalBytes (c : FramebufferConsole) (bytes : List UInt8) : Option FramebufferConsole :=
  bytes.foldlM writeTerminalByte c

end FramebufferConsole

/-- What the kernel does with the console. -/
inductive Op where
  | clear
  | beginTerminalSession
  | writeTerminalByte (byte : UInt8)
deriving DecidableEq, Repr

namespace FramebufferConsole

def apply (c : FramebufferConsole) : Op → Option FramebufferConsole
  | .clear => c.clear
  | .beginTerminalSession => some c.beginTerminalSession
  | .writeTerminalByte byte => c.writeTerminalByte byte

def run (c : FramebufferConsole) (ops : List Op) : Option FramebufferConsole := ops.foldlM apply c

end FramebufferConsole

end Lazers.Framebuffer
