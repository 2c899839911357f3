/-!
# `NoticeServer.Text.Blank` — white space and trimming

White space is the Unicode property `White_Space`, and trimming takes it from both ends of a text.
-/

namespace NoticeServer
namespace Text

/-- The characters with the Unicode property `White_Space`. -/
def isBlank (c : Char) : Bool :=
  let n := c.toNat
  (0x09 ≤ n && n ≤ 0x0D) || n == 0x20 || n == 0x85 || n == 0xA0 || n == 0x1680 ||
    (0x2000 ≤ n && n ≤ 0x200A) || n == 0x2028 || n == 0x2029 || n == 0x202F || n == 0x205F || n == 0x3000

/-- A text without leading white space. -/
def trimLeft (text : List Char) : List Char :=
  text.dropWhile isBlank

/-- A text without trailing white space. -/
def trimRight (text : List Char) : List Char :=
  (text.reverse.dropWhile isBlank).reverse

/-- A text without white space at either end. -/
def trim (text : List Char) : List Char :=
  trimRight (trimLeft text)

end Text
end NoticeServer
