import ScriptLang.Text.CodePoints

namespace ScriptLang.Text

/-- Space, tab, carriage return and line feed separate tokens and have no other meaning. -/
def isSeparator (c : Char) : Bool :=
  c == ' ' || c == '\t' || c == '\r' || c == '\n'

/-- The code points with the Unicode property *White_Space*. -/
def whiteSpace : CodePoints :=
  [(0x9, 0xD), (0x20, 0x20), (0x85, 0x85), (0xA0, 0xA0), (0x1680, 0x1680), (0x2000, 0x200A),
   (0x2028, 0x2029), (0x202F, 0x202F), (0x205F, 0x205F), (0x3000, 0x3000)]

/-- A line is blank when it holds nothing but white space. -/
def isBlankLine (line : String) : Bool :=
  line.toList.all fun c => whiteSpace.contains c.toNat

end ScriptLang.Text
