/-! Blank characters, the words of a text, and texts that hold nothing but blanks. -/
namespace UserManagedAccess.Text

/-- The characters with the Unicode property White_Space. -/
def isBlankChar (c : Char) : Bool :=
  let n := c.toNat
  (0x09 ≤ n && n ≤ 0x0D) || n == 0x20 || n == 0x85 || n == 0xA0 || n == 0x1680 ||
    (0x2000 ≤ n && n ≤ 0x200A) || n == 0x2028 || n == 0x2029 || n == 0x202F || n == 0x205F ||
    n == 0x3000

/-- A text is blank when no character of it is visible; the empty text is blank. -/
def isBlank (s : String) : Bool :=
  s.toList.all isBlankChar

/-- The parts of a text between characters of a class, empty parts included. -/
def parts (separates : Char → Bool) (s : String) : List String :=
  (s.toList.splitOnP separates).map String.ofList

/-- The maximal runs of characters that are not blank. -/
def words (s : String) : List String :=
  (parts isBlankChar s).filter (· ≠ "")

/-- A text without the given character at its end. -/
def dropTrailing (c : Char) (s : String) : String :=
  String.ofList (s.toList.reverse.dropWhile (· == c)).reverse

end UserManagedAccess.Text
