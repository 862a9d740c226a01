import UserManagedAccess.Url.Basic
import UserManagedAccess.Text.Utf8

/-! Domain names in ASCII: letters are folded to lower case, and a label with other characters is
written as `xn--` and a sequence of generalised integers. What a letter is folded to is a matter of
tables that grow with every script; URLs are read by whatever tables there are. -/
namespace UserManagedAccess.Url

/-- Rules by which a domain name becomes ASCII. Little is asked of them: a name that holds a space or
a control character is none. -/
class DomainRules where
  toAscii? : List Char → Option (List Char)
  toAscii?_of_blank : ∀ {name : List Char}, (∃ c ∈ name, c.toNat ≤ 0x20) → toAscii? name = none

namespace Punycode

/-- Digits up to 25 are letters, those from 26 on are decimal digits. -/
def digitChar (d : Nat) : Char :=
  if d < 26 then Char.ofNat (0x61 + d) else Char.ofNat (0x30 + d - 26)

def digitValue? (c : Char) : Option Nat :=
  let n := c.toNat
  if 0x61 ≤ n && n ≤ 0x7A then some (n - 0x61)
  else if 0x41 ≤ n && n ≤ 0x5A then some (n - 0x41)
  else if 0x30 ≤ n && n ≤ 0x39 then some (n - 0x30 + 26)
  else none

/-- The least digit that does not end an integer at position `k`. -/
def threshold (k bias : Nat) : Nat :=
  if k ≤ bias then 1 else if bias + 26 ≤ k then 26 else k - bias

def scale (delta k : Nat) : Nat × Nat :=
  if 455 < delta then scale (delta / 35) (k + 36) else (delta, k)
termination_by delta
decreasing_by exact Nat.div_lt_self (by omega) (by omega)

/-- The bias after an integer has been written or read. -/
def adapt (delta count : Nat) (first : Bool) : Nat :=
  let delta := if first then delta / 700 else delta / 2
  let (delta, k) := scale (delta + delta / count) 0
  k + 36 * delta / (delta + 38)

/-- A generalised integer, least digit first. The fuel bounds the number of its digits. -/
def integer (bias : Nat) : (fuel k q : Nat) → List Char
  | 0, _, _ => []
  | fuel + 1, k, q =>
    let t := threshold k bias
    if q < t then [digitChar q]
    else digitChar (t + (q - t) % (36 - t)) :: integer bias fuel (k + 36) ((q - t) / (36 - t))

/-- What is known while the characters are written: what was written, the distance since then, the
bias and the number of characters done. -/
structure Progress where
  out : List Char
  delta : Nat
  bias : Nat
  done : Nat

/-- Passes one character while those with value `m` are written. -/
def pass (basic m : Nat) (p : Progress) (c : Char) : Progress :=
  if c.toNat < m then { p with delta := p.delta + 1 }
  else if c.toNat = m then
    { out := p.out ++ integer p.bias (p.delta + 1) 36 p.delta, delta := 0,
      bias := adapt p.delta (p.done + 1) (p.done == basic), done := p.done + 1 }
  else p

/-- Writes the characters in the order of their values. -/
def encodeValues (label : List Char) (basic : Nat) : List Nat → Nat → Progress → Progress
  | [], _, p => p
  | m :: rest, n, p =>
    let p := { p with delta := p.delta + (m - n) * (p.done + 1) }
    let p := label.foldl (pass basic m) p
    encodeValues label basic rest (m + 1) { p with delta := p.delta + 1 }

def isBasic (c : Char) : Bool := c.toNat < 0x80

/-- The encoding of a label, without the mark before it. -/
def encode (label : List Char) : List Char :=
  let basic := label.filter isBasic
  let values := ((label.filter (!isBasic ·)).map Char.toNat).mergeSort.eraseDups
  let start : Progress := { out := [], delta := 0, bias := 72, done := basic.length }
  basic ++ (if basic.isEmpty then [] else ['-']) ++
    (encodeValues label basic.length values 0x80 start).out

/-- An integer at the front of a text, added to `i` with weight `w`. -/
def readInteger? (bias : Nat) : List Char → (k w i : Nat) → Option (Nat × List Char)
  | [], _, _, _ => none
  | c :: rest, k, w, i =>
    match digitValue? c with
    | none => none
    | some d =>
      let t := threshold k bias
      if d < t then some (i + d * w, rest)
      else readInteger? bias rest (k + 36) (w * (36 - t)) (i + d * w)

/-- Inserts the encoded characters one after the other. -/
def insertAll? : (fuel : Nat) → (bias n i : Nat) → (out : List Char) → List Char →
    Option (List Char)
  | _, _, _, _, out, [] => some out
  | 0, _, _, _, _, _ => none
  | fuel + 1, bias, n, i, out, text =>
    match readInteger? bias text 36 1 i with
    | none => none
    | some (j, rest) =>
      let count := out.length + 1
      let value := n + j / count
      if value.isValidChar then
        insertAll? fuel (adapt (j - i) count (i == 0)) value (j % count + 1)
          (out.insertIdx (j % count) (Char.ofNat value)) rest
      else none

/-- The label that an encoding stands for. -/
def decode? (text : List Char) : Option (List Char) :=
  let tail := (text.reverse.takeWhile (· != '-')).reverse
  let head := text.take (text.length - tail.length - 1)
  if head.all isBasic then insertAll? (tail.length + 1) 72 0x80 0 head tail else none

end Punycode

namespace Domain

/-- Characters that stand for no other and that no domain name holds. -/
def isForbidden (c : Char) : Bool :=
  let n := c.toNat
  n ≤ 0x20 || n == 0x7F ||
    ['#', '/', ':', '<', '>', '?', '@', '[', '\x5C', ']', '^', '|', '%'].contains c

/-- Alternating upper and lower case, upper case at even places. -/
def isUpperEven (n : Nat) : Bool :=
  n % 2 == 0 && ((0x100 ≤ n && n ≤ 0x12F && n != 0x130) || (0x132 ≤ n && n ≤ 0x137) ||
    (0x14A ≤ n && n ≤ 0x177) || (0x1E00 ≤ n && n ≤ 0x1E95) || (0x1EA0 ≤ n && n ≤ 0x1EFF) ||
    (0x460 ≤ n && n ≤ 0x481) || (0x48A ≤ n && n ≤ 0x4BF) || (0x4D0 ≤ n && n ≤ 0x52F))

/-- Alternating upper and lower case, upper case at odd places. -/
def isUpperOdd (n : Nat) : Bool :=
  n % 2 == 1 && ((0x139 ≤ n && n ≤ 0x148) || (0x179 ≤ n && n ≤ 0x17E) || (0x4C1 ≤ n && n ≤ 0x4CE))

/-- What a character of a domain name is mapped to: letters to lower case, full-width forms to their
narrow ones, the ideographic stops to a full stop, blanks to the space; invisible joiners go. The
table covers the Latin, Greek, Cyrillic and Armenian letters. -/
def mapChar (c : Char) : List Char :=
  let n := c.toNat
  if 0x41 ≤ n && n ≤ 0x5A then [Char.ofNat (n + 32)]
  else if n < 0x80 then [c]
  else if n == 0xAD || n == 0x200B || n == 0x2060 || n == 0xFEFF ||
      (0xFE00 ≤ n && n ≤ 0xFE0F) then []
  else if n == 0xA0 || (0x2000 ≤ n && n ≤ 0x200A) || n == 0x202F || n == 0x205F ||
      n == 0x3000 then [' ']
  else if n == 0x3002 || n == 0xFF61 then ['.']
  else if 0xFF21 ≤ n && n ≤ 0xFF3A then [Char.ofNat (n - 0xFF21 + 0x61)]
  else if 0xFF01 ≤ n && n ≤ 0xFF5E then [Char.ofNat (n - 0xFEE0)]
  else if n == 0xAA then ['a']
  else if n == 0xBA then ['o']
  else if n == 0xB2 then ['2']
  else if n == 0xB3 then ['3']
  else if n == 0xB9 then ['1']
  else if n == 0xB5 then [Char.ofNat 0x3BC]
  else if 0xC0 ≤ n && n ≤ 0xDE && n != 0xD7 then [Char.ofNat (n + 32)]
  else if n == 0x130 then ['i', Char.ofNat 0x307]
  else if n == 0x178 then [Char.ofNat 0xFF]
  else if n == 0x17F then ['s']
  else if n == 0x1E9E then ['s', 's']
  else if isUpperEven n || isUpperOdd n then [Char.ofNat (n + 1)]
  else if n == 0x386 then [Char.ofNat 0x3AC]
  else if 0x388 ≤ n && n ≤ 0x38A then [Char.ofNat (n + 37)]
  else if n == 0x38C then [Char.ofNat 0x3CC]
  else if n == 0x38E || n == 0x38F then [Char.ofNat (n + 63)]
  else if 0x391 ≤ n && n ≤ 0x3AB && n != 0x3A2 then [Char.ofNat (n + 32)]
  else if 0x400 ≤ n && n ≤ 0x40F then [Char.ofNat (n + 80)]
  else if 0x410 ≤ n && n ≤ 0x42F then [Char.ofNat (n + 32)]
  else if 0x531 ≤ n && n ≤ 0x556 then [Char.ofNat (n + 48)]
  else [c]

/-- Characters outside ASCII that no label holds: controls, joiners, private use, separators and the
mark for undecodable bytes. -/
def isUnassigned (c : Char) : Bool :=
  let n := c.toNat
  (0x80 ≤ n && n < 0xA0) || (0x200C ≤ n && n ≤ 0x200F) || (0x2028 ≤ n && n ≤ 0x202E) ||
    (0x2061 ≤ n && n ≤ 0x206F) || (0xE000 ≤ n && n ≤ 0xF8FF) || (0xFFF0 ≤ n && n ≤ 0xFFFF) ||
    0xE0000 ≤ n

def marker : List Char := ['x', 'n', '-', '-']

/-- A mapped label in ASCII. A label that is marked as encoded has to be the encoding of some label
with a character outside ASCII. -/
def labelToAscii? (label : List Char) : Option (List Char) :=
  if marker.isPrefixOf label then
    if label.all Punycode.isBasic then
      match Punycode.decode? (label.drop 4) with
      | none => none
      | some decoded =>
        if decoded.all Punycode.isBasic || decoded.any isUnassigned ||
            decoded.flatMap mapChar != decoded then none
        else some label
    else none
  else if label.all Punycode.isBasic then some label
  else if label.any isUnassigned then none
  else some (marker ++ Punycode.encode label)

/-- A domain name in ASCII, or nothing if it is none. -/
def toAscii? (name : List Char) : Option (List Char) :=
  let mapped := name.flatMap mapChar
  if mapped.any isForbidden then none
  else do
    let labels ← (mapped.splitOnP (· == '.')).mapM labelToAscii?
    return ['.'].intercalate labels

theorem mapChar_of_blank {c : Char} (h : c.toNat ≤ 0x20) : mapChar c = [c] := by
  rw [mapChar, if_neg (by simp only [Bool.and_eq_true, decide_eq_true_eq]; omega), if_pos (by omega)]

theorem toAscii?_of_blank {name : List Char} (h : ∃ c ∈ name, c.toNat ≤ 0x20) :
    toAscii? name = none := by
  obtain ⟨c, hc, hblank⟩ := h
  have hmapped : c ∈ name.flatMap mapChar :=
    List.mem_flatMap.mpr ⟨c, hc, by rw [mapChar_of_blank hblank]; exact List.mem_singleton_self c⟩
  have hforbidden : isForbidden c = true := by simp [isForbidden, hblank]
  exact if_pos (List.any_eq_true.mpr ⟨c, hmapped, hforbidden⟩)

end Domain

/-- The tables above know the Latin, Greek, Cyrillic and Armenian scripts. Letters of others are
taken as they stand, and accents that follow their letter are not joined to it. -/
instance : DomainRules := ⟨Domain.toAscii?, Domain.toAscii?_of_blank⟩

end UserManagedAccess.Url
