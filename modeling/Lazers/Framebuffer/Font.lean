import Mathlib.Tactic.Common

/-!
# The font (`font.rs`)

A glyph has seven rows of five bits, the leftmost column in the highest bit. Letters of both cases
share a glyph, and a byte without one is drawn as a question mark.
-/

namespace Lazers.Framebuffer

def glyphWidth : Nat := 5
def glyphHeight : Nat := 7

abbrev Glyph := Vector UInt8 glyphHeight

namespace Font

def space : Glyph := #v[0b00000, 0b00000, 0b00000, 0b00000, 0b00000, 0b00000, 0b00000]

def exclamation : Glyph := #v[0b00100, 0b00100, 0b00100, 0b00100, 0b00100, 0b00000, 0b00100]

def doubleQuote : Glyph := #v[0b01010, 0b01010, 0b01010, 0b00000, 0b00000, 0b00000, 0b00000]

def hash : Glyph := #v[0b01010, 0b11111, 0b01010, 0b11111, 0b01010, 0b01010, 0b00000]

def dollar : Glyph := #v[0b00100, 0b01111, 0b10100, 0b01110, 0b00101, 0b11110, 0b00100]

def percent : Glyph := #v[0b11001, 0b11010, 0b00100, 0b01000, 0b10110, 0b00110, 0b00000]

def ampersand : Glyph := #v[0b01100, 0b10010, 0b10100, 0b01000, 0b10101, 0b10010, 0b01101]

def apostrophe : Glyph := #v[0b00100, 0b00100, 0b01000, 0b00000, 0b00000, 0b00000, 0b00000]

def leftParen : Glyph := #v[0b00010, 0b00100, 0b01000, 0b01000, 0b01000, 0b00100, 0b00010]

def rightParen : Glyph := #v[0b01000, 0b00100, 0b00010, 0b00010, 0b00010, 0b00100, 0b01000]

def asterisk : Glyph := #v[0b00000, 0b00100, 0b10101, 0b01110, 0b10101, 0b00100, 0b00000]

def plus : Glyph := #v[0b00000, 0b00100, 0b00100, 0b11111, 0b00100, 0b00100, 0b00000]

def comma : Glyph := #v[0b00000, 0b00000, 0b00000, 0b00000, 0b00110, 0b00100, 0b01000]

def minus : Glyph := #v[0b00000, 0b00000, 0b00000, 0b11111, 0b00000, 0b00000, 0b00000]

def period : Glyph := #v[0b00000, 0b00000, 0b00000, 0b00000, 0b00000, 0b01100, 0b01100]

def slash : Glyph := #v[0b00001, 0b00001, 0b00010, 0b00100, 0b01000, 0b10000, 0b10000]

def zero : Glyph := #v[0b01110, 0b10001, 0b10011, 0b10101, 0b11001, 0b10001, 0b01110]

def one : Glyph := #v[0b00100, 0b01100, 0b00100, 0b00100, 0b00100, 0b00100, 0b01110]

def two : Glyph := #v[0b01110, 0b10001, 0b00001, 0b00010, 0b00100, 0b01000, 0b11111]

def three : Glyph := #v[0b11110, 0b00001, 0b00001, 0b01110, 0b00001, 0b00001, 0b11110]

def four : Glyph := #v[0b00010, 0b00110, 0b01010, 0b10010, 0b11111, 0b00010, 0b00010]

def five : Glyph := #v[0b11111, 0b10000, 0b10000, 0b11110, 0b00001, 0b00001, 0b11110]

def six : Glyph := #v[0b01110, 0b10000, 0b10000, 0b11110, 0b10001, 0b10001, 0b01110]

def seven : Glyph := #v[0b11111, 0b00001, 0b00010, 0b00100, 0b01000, 0b01000, 0b01000]

def eight : Glyph := #v[0b01110, 0b10001, 0b10001, 0b01110, 0b10001, 0b10001, 0b01110]

def nine : Glyph := #v[0b01110, 0b10001, 0b10001, 0b01111, 0b00001, 0b00001, 0b01110]

def colon : Glyph := #v[0b00000, 0b00100, 0b00100, 0b00000, 0b00100, 0b00100, 0b00000]

def semicolon : Glyph := #v[0b00000, 0b00100, 0b00100, 0b00000, 0b00100, 0b00100, 0b01000]

def lessThan : Glyph := #v[0b00010, 0b00100, 0b01000, 0b10000, 0b01000, 0b00100, 0b00010]

def equal : Glyph := #v[0b00000, 0b11111, 0b00000, 0b11111, 0b00000, 0b00000, 0b00000]

def greaterThan : Glyph := #v[0b01000, 0b00100, 0b00010, 0b00001, 0b00010, 0b00100, 0b01000]

def question : Glyph := #v[0b01110, 0b10001, 0b00001, 0b00010, 0b00100, 0b00000, 0b00100]

def atSign : Glyph := #v[0b01110, 0b10001, 0b10111, 0b10101, 0b10111, 0b10000, 0b01110]

def letterA : Glyph := #v[0b01110, 0b10001, 0b10001, 0b11111, 0b10001, 0b10001, 0b10001]

def letterB : Glyph := #v[0b11110, 0b10001, 0b10001, 0b11110, 0b10001, 0b10001, 0b11110]

def letterC : Glyph := #v[0b01110, 0b10001, 0b10000, 0b10000, 0b10000, 0b10001, 0b01110]

def letterD : Glyph := #v[0b11110, 0b10001, 0b10001, 0b10001, 0b10001, 0b10001, 0b11110]

def letterE : Glyph := #v[0b11111, 0b10000, 0b10000, 0b11110, 0b10000, 0b10000, 0b11111]

def letterF : Glyph := #v[0b11111, 0b10000, 0b10000, 0b11110, 0b10000, 0b10000, 0b10000]

def letterG : Glyph := #v[0b01110, 0b10001, 0b10000, 0b10111, 0b10001, 0b10001, 0b01110]

def letterH : Glyph := #v[0b10001, 0b10001, 0b10001, 0b11111, 0b10001, 0b10001, 0b10001]

def letterI : Glyph := #v[0b01110, 0b00100, 0b00100, 0b00100, 0b00100, 0b00100, 0b01110]

def letterJ : Glyph := #v[0b00001, 0b00001, 0b00001, 0b00001, 0b10001, 0b10001, 0b01110]

def letterK : Glyph := #v[0b10001, 0b10010, 0b10100, 0b11000, 0b10100, 0b10010, 0b10001]

def letterL : Glyph := #v[0b10000, 0b10000, 0b10000, 0b10000, 0b10000, 0b10000, 0b11111]

def letterM : Glyph := #v[0b10001, 0b11011, 0b10101, 0b10101, 0b10001, 0b10001, 0b10001]

def letterN : Glyph := #v[0b10001, 0b11001, 0b10101, 0b10011, 0b10001, 0b10001, 0b10001]

def letterO : Glyph := #v[0b01110, 0b10001, 0b10001, 0b10001, 0b10001, 0b10001, 0b01110]

def letterP : Glyph := #v[0b11110, 0b10001, 0b10001, 0b11110, 0b10000, 0b10000, 0b10000]

def letterQ : Glyph := #v[0b01110, 0b10001, 0b10001, 0b10001, 0b10101, 0b10010, 0b01101]

def letterR : Glyph := #v[0b11110, 0b10001, 0b10001, 0b11110, 0b10100, 0b10010, 0b10001]

def letterS : Glyph := #v[0b01111, 0b10000, 0b10000, 0b01110, 0b00001, 0b00001, 0b11110]

def letterT : Glyph := #v[0b11111, 0b00100, 0b00100, 0b00100, 0b00100, 0b00100, 0b00100]

def letterU : Glyph := #v[0b10001, 0b10001, 0b10001, 0b10001, 0b10001, 0b10001, 0b01110]

def letterV : Glyph := #v[0b10001, 0b10001, 0b10001, 0b10001, 0b10001, 0b01010, 0b00100]

def letterW : Glyph := #v[0b10001, 0b10001, 0b10001, 0b10101, 0b10101, 0b10101, 0b01010]

def letterX : Glyph := #v[0b10001, 0b10001, 0b01010, 0b00100, 0b01010, 0b10001, 0b10001]

def letterY : Glyph := #v[0b10001, 0b10001, 0b01010, 0b00100, 0b00100, 0b00100, 0b00100]

def letterZ : Glyph := #v[0b11111, 0b00001, 0b00010, 0b00100, 0b01000, 0b10000, 0b11111]

def leftBracket : Glyph := #v[0b01110, 0b01000, 0b01000, 0b01000, 0b01000, 0b01000, 0b01110]

def backslash : Glyph := #v[0b10000, 0b01000, 0b00100, 0b00010, 0b00001, 0b00000, 0b00000]

def rightBracket : Glyph := #v[0b01110, 0b00010, 0b00010, 0b00010, 0b00010, 0b00010, 0b01110]

def caret : Glyph := #v[0b00100, 0b01010, 0b10001, 0b00000, 0b00000, 0b00000, 0b00000]

def underscore : Glyph := #v[0b00000, 0b00000, 0b00000, 0b00000, 0b00000, 0b00000, 0b11111]

def backtick : Glyph := #v[0b01000, 0b00100, 0b00010, 0b00000, 0b00000, 0b00000, 0b00000]

def leftBrace : Glyph := #v[0b00010, 0b00100, 0b00100, 0b01000, 0b00100, 0b00100, 0b00010]

def verticalBar : Glyph := #v[0b00100, 0b00100, 0b00100, 0b00000, 0b00100, 0b00100, 0b00100]

def rightBrace : Glyph := #v[0b01000, 0b00100, 0b00100, 0b00010, 0b00100, 0b00100, 0b01000]

def tilde : Glyph := #v[0b00000, 0b00000, 0b01001, 0b10110, 0b00000, 0b00000, 0b00000]

end Font

/-- `glyph_for`. -/
def glyphFor (byte : UInt8) : Glyph :=
  match byte with
  | 32 => Font.space
  | 33 => Font.exclamation
  | 34 => Font.doubleQuote
  | 35 => Font.hash
  | 36 => Font.dollar
  | 37 => Font.percent
  | 38 => Font.ampersand
  | 39 => Font.apostrophe
  | 40 => Font.leftParen
  | 41 => Font.rightParen
  | 42 => Font.asterisk
  | 43 => Font.plus
  | 44 => Font.comma
  | 45 => Font.minus
  | 46 => Font.period
  | 47 => Font.slash
  | 48 => Font.zero
  | 49 => Font.one
  | 50 => Font.two
  | 51 => Font.three
  | 52 => Font.four
  | 53 => Font.five
  | 54 => Font.six
  | 55 => Font.seven
  | 56 => Font.eight
  | 57 => Font.nine
  | 58 => Font.colon
  | 59 => Font.semicolon
  | 60 => Font.lessThan
  | 61 => Font.equal
  | 62 => Font.greaterThan
  | 63 => Font.question
  | 64 => Font.atSign
  | 65 | 97 => Font.letterA
  | 66 | 98 => Font.letterB
  | 67 | 99 => Font.letterC
  | 68 | 100 => Font.letterD
  | 69 | 101 => Font.letterE
  | 70 | 102 => Font.letterF
  | 71 | 103 => Font.letterG
  | 72 | 104 => Font.letterH
  | 73 | 105 => Font.letterI
  | 74 | 106 => Font.letterJ
  | 75 | 107 => Font.letterK
  | 76 | 108 => Font.letterL
  | 77 | 109 => Font.letterM
  | 78 | 110 => Font.letterN
  | 79 | 111 => Font.letterO
  | 80 | 112 => Font.letterP
  | 81 | 113 => Font.letterQ
  | 82 | 114 => Font.letterR
  | 83 | 115 => Font.letterS
  | 84 | 116 => Font.letterT
  | 85 | 117 => Font.letterU
  | 86 | 118 => Font.letterV
  | 87 | 119 => Font.letterW
  | 88 | 120 => Font.letterX
  | 89 | 121 => Font.letterY
  | 90 | 122 => Font.letterZ
  | 91 => Font.leftBracket
  | 92 => Font.backslash
  | 93 => Font.rightBracket
  | 94 => Font.caret
  | 95 => Font.underscore
  | 96 => Font.backtick
  | 123 => Font.leftBrace
  | 124 => Font.verticalBar
  | 125 => Font.rightBrace
  | 126 => Font.tilde
  | _ => Font.question

/-- The bit of a glyph in a column and a row. -/
def glyphBit (glyph : Glyph) (column row : Nat) : Bool :=
  glyph[row]?.getD 0 &&& (1 <<< UInt8.ofNat (glyphWidth - 1 - column)) ≠ 0

end Lazers.Framebuffer
