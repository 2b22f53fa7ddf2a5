/-!
# Character classes

Classes of code points as tables of inclusive ranges. The tables are partial.
They cover the Latin, Greek, Cyrillic, Armenian, Hebrew and Arabic blocks,
general punctuation, kana, the unified ideographs, Hangul, the private and
special ranges of the basic plane, regional symbols and the last planes. Letters,
digits and marks of other scripts are taken for symbols, and so are the code
points of other blocks that stand for nothing; all of these pass for printable.
What is proved of patterns and lexers does not depend on the tables.
-/

namespace PullLexer.CharClass

abbrev Ranges := List (Nat × Nat)

def Ranges.has (table : Ranges) (code : Nat) : Bool :=
  table.any fun range => range.1 ≤ code && code ≤ range.2

def decimals : Ranges :=
  [(0x30, 0x39), (0x660, 0x669), (0x6F0, 0x6F9), (0xFF10, 0xFF19)]

def alphanumerics : Ranges :=
  [(0xAA, 0xAA), (0xB2, 0xB3), (0xB5, 0xB5), (0xB9, 0xBA), (0xBC, 0xBE), (0xC0, 0xD6),
   (0xD8, 0xF6), (0xF8, 0x2C1), (0x2C6, 0x2D1), (0x2E0, 0x2E4), (0x2EC, 0x2EC), (0x2EE, 0x2EE),
   (0x370, 0x374), (0x376, 0x377), (0x37A, 0x37D), (0x37F, 0x37F), (0x386, 0x386),
   (0x388, 0x38A), (0x38C, 0x38C), (0x38E, 0x3A1), (0x3A3, 0x3F5), (0x3F7, 0x481),
   (0x48A, 0x52F), (0x531, 0x556), (0x559, 0x559), (0x560, 0x588), (0x5D0, 0x5EA),
   (0x5EF, 0x5F2), (0x620, 0x64A), (0x660, 0x669), (0x66E, 0x66F), (0x671, 0x6D3),
   (0x6D5, 0x6D5), (0x6E5, 0x6E6), (0x6EE, 0x6FC), (0x6FF, 0x6FF), (0x1E00, 0x1F15),
   (0x1F18, 0x1F1D), (0x1F20, 0x1F45), (0x1F48, 0x1F4D), (0x1F50, 0x1F57), (0x1F59, 0x1F59),
   (0x1F5B, 0x1F5B), (0x1F5D, 0x1F5D), (0x1F5F, 0x1F7D), (0x1F80, 0x1FB4), (0x1FB6, 0x1FBC),
   (0x1FBE, 0x1FBE), (0x1FC2, 0x1FC4), (0x1FC6, 0x1FCC), (0x1FD0, 0x1FD3), (0x1FD6, 0x1FDB),
   (0x1FE0, 0x1FEC), (0x1FF2, 0x1FF4), (0x1FF6, 0x1FFC), (0x2070, 0x2071), (0x2074, 0x2079),
   (0x207F, 0x2089), (0x2090, 0x209C), (0x2150, 0x2189), (0x3005, 0x3007), (0x3021, 0x3029),
   (0x3031, 0x3035), (0x3038, 0x303C), (0x3041, 0x3096), (0x309D, 0x309F), (0x30A1, 0x30FA),
   (0x30FC, 0x30FF), (0x3400, 0x4DBF), (0x4E00, 0x9FFF), (0xAC00, 0xD7A3), (0xD7B0, 0xD7C6),
   (0xD7CB, 0xD7FB), (0xF900, 0xFA6D), (0xFA70, 0xFAD9), (0xFE70, 0xFE74), (0xFE76, 0xFEFC),
   (0xFF10, 0xFF19), (0xFF21, 0xFF3A), (0xFF41, 0xFF5A), (0xFF66, 0xFFBE), (0xFFC2, 0xFFC7),
   (0xFFCA, 0xFFCF), (0xFFD2, 0xFFD7), (0xFFDA, 0xFFDC)]

/-- Numbers that are neither decimal digits nor letters, such as fractions. -/
def otherNumbers : Ranges :=
  [(0xB2, 0xB3), (0xB9, 0xB9), (0xBC, 0xBE), (0x2070, 0x2070), (0x2074, 0x2079),
   (0x2080, 0x2089), (0x2150, 0x215F), (0x2189, 0x2189)]

/-- Marks that combine with the letter before them. -/
def marks : Ranges :=
  [(0x300, 0x36F), (0x483, 0x487), (0x591, 0x5BD), (0x5BF, 0x5BF), (0x5C1, 0x5C2),
   (0x5C4, 0x5C5), (0x5C7, 0x5C7), (0x610, 0x61A), (0x64B, 0x65F), (0x670, 0x670),
   (0x6D6, 0x6DC), (0x6DF, 0x6E4), (0x6E7, 0x6E8), (0x6EA, 0x6ED), (0x3099, 0x309A),
   (0xFE20, 0xFE2F)]

def spaces : Ranges :=
  [(0x9, 0xD), (0x1C, 0x20), (0x85, 0x85), (0xA0, 0xA0), (0x1680, 0x1680), (0x2000, 0x200A),
   (0x2028, 0x2029), (0x202F, 0x202F), (0x205F, 0x205F), (0x3000, 0x3000)]

/-- Control and format characters, separators other than the blank, private and unassigned
code points. -/
def unprintables : Ranges :=
  [(0x0, 0x1F), (0x7F, 0xA0), (0xAD, 0xAD), (0x378, 0x379), (0x380, 0x383), (0x38B, 0x38B),
   (0x38D, 0x38D), (0x3A2, 0x3A2), (0x530, 0x530), (0x557, 0x558), (0x58B, 0x58C),
   (0x590, 0x590), (0x5C8, 0x5CF), (0x5EB, 0x5EE), (0x5F5, 0x605), (0x61C, 0x61C),
   (0x6DD, 0x6DD), (0x1680, 0x1680), (0x1F16, 0x1F17), (0x1F1E, 0x1F1F), (0x1F46, 0x1F47),
   (0x1F4E, 0x1F4F), (0x1F58, 0x1F58), (0x1F5A, 0x1F5A), (0x1F5C, 0x1F5C), (0x1F5E, 0x1F5E),
   (0x1F7E, 0x1F7F), (0x1FB5, 0x1FB5), (0x1FC5, 0x1FC5), (0x1FD4, 0x1FD5), (0x1FDC, 0x1FDC),
   (0x1FF0, 0x1FF1), (0x1FF5, 0x1FF5), (0x1FFF, 0x200F), (0x2028, 0x202F), (0x205F, 0x206F),
   (0x2072, 0x2073), (0x208F, 0x208F), (0x209D, 0x209F), (0x20C1, 0x20CF), (0x20F1, 0x20FF),
   (0x218C, 0x218F), (0x3000, 0x3000), (0x3040, 0x3040), (0x3097, 0x3098), (0xD7A4, 0xD7AF),
   (0xD7C7, 0xD7CA), (0xD7FC, 0xF8FF), (0xFA6E, 0xFA6F), (0xFADA, 0xFAFF), (0xFE1A, 0xFE1F),
   (0xFE53, 0xFE53), (0xFE67, 0xFE67), (0xFE6C, 0xFE6F), (0xFE75, 0xFE75), (0xFEFD, 0xFF00),
   (0xFFBF, 0xFFC1), (0xFFC8, 0xFFC9), (0xFFD0, 0xFFD1), (0xFFD8, 0xFFD9), (0xFFDD, 0xFFDF),
   (0xFFE7, 0xFFE7), (0xFFEF, 0xFFFB), (0xFFFE, 0xFFFF), (0x1F1AE, 0x1F1E5), (0xE0000, 0xE00FF),
   (0xE01F0, 0x10FFFF)]

def isAsciiLetter (code : Nat) : Bool :=
  (0x41 ≤ code && code ≤ 0x5A) || (0x61 ≤ code && code ≤ 0x7A)

def isAsciiDigit (code : Nat) : Bool := 0x30 ≤ code && code ≤ 0x39

def isAsciiSpace (code : Nat) : Bool := (9 ≤ code && code ≤ 13) || code == 32

def isAsciiWord (code : Nat) : Bool :=
  isAsciiLetter code || isAsciiDigit code || code == 0x5F

def isDecimal (code : Nat) : Bool := isAsciiDigit code || (0x80 ≤ code && decimals.has code)

def isSpace (code : Nat) : Bool := spaces.has code

/-- A letter, a number or the low line. -/
def isWord (code : Nat) : Bool := isAsciiWord code || (0x80 ≤ code && alphanumerics.has code)

def isLetter (code : Nat) : Bool :=
  isAsciiLetter code ||
    (0x80 ≤ code && alphanumerics.has code && !decimals.has code && !otherNumbers.has code)

def isPrintable (code : Nat) : Bool :=
  if code < 0x80 then 0x20 ≤ code && code < 0x7F else !unprintables.has code

/-- A letter or the low line, then letters, low lines, digits and marks. -/
def isIdentifier : List Char → Bool
  | [] => false
  | c :: rest =>
    let opens (code : Nat) := isLetter code || code == 0x5F
    opens c.toNat && rest.all fun d =>
      opens d.toNat || isDecimal d.toNat || marks.has d.toNat || d.toNat == 0xB7

/-- A run of capitals whose small letters lie a fixed distance above them. -/
structure CaseRun where
  first : Nat
  last : Nat
  gap : Nat

/-- Runs whose capitals are contiguous. -/
def caseRuns : List CaseRun :=
  [⟨0x41, 0x5A, 32⟩, ⟨0xC0, 0xD6, 32⟩, ⟨0xD8, 0xDE, 32⟩, ⟨0x386, 0x386, 38⟩, ⟨0x388, 0x38A, 37⟩,
   ⟨0x38C, 0x38C, 64⟩, ⟨0x38E, 0x38F, 63⟩, ⟨0x391, 0x3A1, 32⟩, ⟨0x3A3, 0x3AB, 32⟩,
   ⟨0x400, 0x40F, 80⟩, ⟨0x410, 0x42F, 32⟩, ⟨0x4C0, 0x4C0, 15⟩, ⟨0x531, 0x556, 48⟩]

/-- Ranges in which capital and small letter alternate, the capital first. -/
def alternating : Ranges :=
  [(0x100, 0x12F), (0x132, 0x137), (0x139, 0x148), (0x14A, 0x177), (0x179, 0x17E),
   (0x1CD, 0x1DC), (0x1DE, 0x1EF), (0x1F4, 0x1F5), (0x1F8, 0x21F), (0x222, 0x233),
   (0x246, 0x24F), (0x370, 0x373), (0x376, 0x377), (0x3D8, 0x3EF), (0x460, 0x481),
   (0x48A, 0x4BF), (0x4C1, 0x4CE), (0x4D0, 0x52F), (0x1E00, 0x1E95), (0x1EA0, 0x1EFF)]

def lower (code : Nat) : Nat :=
  match caseRuns.find? fun run => run.first ≤ code && code ≤ run.last with
  | some run => code + run.gap
  | none =>
    if code < 0x100 then code
    else if code == 0x178 then 0xFF
    else match alternating.find? fun range => range.1 ≤ code && code ≤ range.2 with
      | some range => if (code - range.1) % 2 == 0 then code + 1 else code
      | none => code

def upper (code : Nat) : Nat :=
  match caseRuns.find? fun run => run.first + run.gap ≤ code && code ≤ run.last + run.gap with
  | some run => code - run.gap
  | none =>
    if code == 0xFF then 0x178
    else if code == 0xB5 then 0x39C
    else if code == 0x3C2 then 0x3A3
    else if code < 0x100 then code
    else match alternating.find? fun range => range.1 ≤ code && code ≤ range.2 with
      | some range => if (code - range.1) % 2 == 1 then code - 1 else code
      | none => code

def lowerAscii (code : Nat) : Nat := if 0x41 ≤ code && code ≤ 0x5A then code + 32 else code

def upperAscii (code : Nat) : Nat := if 0x61 ≤ code && code ≤ 0x7A then code - 32 else code

/-- A text in capitals; the sharp s becomes two letters. -/
def capitals (t : List Char) : List Char :=
  t.flatMap fun c => if c.toNat == 0xDF then ['S', 'S'] else [Char.ofNat (upper c.toNat)]

end PullLexer.CharClass
