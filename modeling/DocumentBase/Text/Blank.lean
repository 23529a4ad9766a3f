/-!
# Blank text

White space is the Unicode property of that name.  A name made of white space only counts as
empty.
-/

namespace DocumentBase.Text

def isSpace (c : Char) : Bool :=
  let n := c.toNat
  (0x9 ≤ n && n ≤ 0xd) || n = 0x20 || n = 0x85 || n = 0xa0 || n = 0x1680
    || (0x2000 ≤ n && n ≤ 0x200a) || n = 0x2028 || n = 0x2029 || n = 0x202f
    || n = 0x205f || n = 0x3000

def isBlank (text : String) : Bool :=
  text.toList.all isSpace

end DocumentBase.Text
