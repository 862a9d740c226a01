import UserManagedAccess.Jose.Algorithm

/-! The SHA-2 digests, once for both word sizes. The constants are what they are defined as: leading
binary places of roots of the first primes. -/
namespace UserManagedAccess.Crypto.Sha2

/-- The greatest number below `2 ^ bits` whose power stays within the bound. -/
def rootBelow (power bound : Nat) : (bits root : Nat) → Nat
  | 0, root => root
  | bits + 1, root =>
    let next := root + Nat.pow 2 bits
    rootBelow power bound bits (if Nat.pow next power ≤ bound then next else root)

/-- The first 64 binary places of a root of a small number. -/
def rootPlaces (power n : Nat) : Nat :=
  rootBelow power (n * Nat.pow 2 (64 * power)) 72 0 % 0x10000000000000000

def isPrime (n : Nat) : Bool := 2 ≤ n && (List.range n).all fun d => d < 2 || n % d != 0

/-- The first 80 primes. -/
def primes : List Nat := (List.range 410).filter isPrime

def cubeRoots : List Nat := primes.map (rootPlaces 3)

def squareRoots : List Nat := (primes.take 16).map (rootPlaces 2)

/-- The word size and the constants that depend on it. -/
structure Variant (w : Nat) where
  /-- The bytes of a word. -/
  width : Nat
  roundConstants : List (BitVec w)
  bigSigma0 : BitVec w → BitVec w
  bigSigma1 : BitVec w → BitVec w
  smallSigma0 : BitVec w → BitVec w
  smallSigma1 : BitVec w → BitVec w

def rotations {w : Nat} (a b c : Nat) (x : BitVec w) : BitVec w :=
  x.rotateRight a ^^^ x.rotateRight b ^^^ x.rotateRight c

def rotationsAndShift {w : Nat} (a b c : Nat) (x : BitVec w) : BitVec w :=
  x.rotateRight a ^^^ x.rotateRight b ^^^ (x >>> c)

def short : Variant 32 where
  width := 4
  roundConstants := (cubeRoots.take 64).map fun k => .ofNat 32 (k / 0x100000000)
  bigSigma0 := rotations 2 13 22
  bigSigma1 := rotations 6 11 25
  smallSigma0 := rotationsAndShift 7 18 3
  smallSigma1 := rotationsAndShift 17 19 10

def long : Variant 64 where
  width := 8
  roundConstants := cubeRoots.map (.ofNat 64)
  bigSigma0 := rotations 28 34 39
  bigSigma1 := rotations 14 18 41
  smallSigma0 := rotationsAndShift 1 8 7
  smallSigma1 := rotationsAndShift 19 61 6

/-- The eight words of a state. -/
structure State (w : Nat) where
  a : BitVec w
  b : BitVec w
  c : BitVec w
  d : BitVec w
  e : BitVec w
  f : BitVec w
  g : BitVec w
  h : BitVec w

namespace State
variable {w : Nat}

def toList (s : State w) : List (BitVec w) := [s.a, s.b, s.c, s.d, s.e, s.f, s.g, s.h]

def add (s t : State w) : State w :=
  ⟨s.a + t.a, s.b + t.b, s.c + t.c, s.d + t.d, s.e + t.e, s.f + t.f, s.g + t.g, s.h + t.h⟩

/-- The state that begins with the given words. -/
def ofList (words : List (BitVec w)) : State w :=
  let word (i : Nat) := words.getD i 0
  ⟨word 0, word 1, word 2, word 3, word 4, word 5, word 6, word 7⟩

end State

variable {w : Nat}

def round (v : Variant w) (s : State w) (constant word : BitVec w) : State w :=
  let t1 := s.h + v.bigSigma1 s.e + ((s.e &&& s.f) ^^^ (~~~s.e &&& s.g)) + constant + word
  let t2 := v.bigSigma0 s.a + ((s.a &&& s.b) ^^^ (s.a &&& s.c) ^^^ (s.b &&& s.c))
  ⟨t1 + t2, s.a, s.b, s.c, s.d + t1, s.e, s.f, s.g⟩

/-- The rounds of a block. Of the schedule the last sixteen words are kept, the oldest first. -/
def rounds (v : Variant w) : List (BitVec w) → List (BitVec w) → State w → State w
  | [], _, s => s
  | constant :: constants, schedule, s =>
    let oldest := schedule.getD 0 0
    let next := v.smallSigma1 (schedule.getD 14 0) + schedule.getD 9 0 +
      v.smallSigma0 (schedule.getD 1 0) + oldest
    rounds v constants (schedule.drop 1 ++ [next]) (round v s constant oldest)

/-- The number that bytes stand for, the most significant first. -/
def numberOfBytes (bytes : List UInt8) : Nat :=
  bytes.foldl (fun n b => n * 256 + b.toNat) 0

/-- A number in so many bytes, the most significant first. -/
def bytesOfNumber (count n : Nat) : List UInt8 :=
  (List.range count).map fun i => UInt8.ofNat (n / Nat.pow 256 (count - 1 - i))

/-- The first `count` blocks of a list. -/
def blocks {α : Type} (size : Nat) : (count : Nat) → List α → List (List α)
  | 0, _ => []
  | count + 1, items => items.take size :: blocks size count (items.drop size)

/-- A message with a closing bit, zeros and its length in bits, in whole blocks. -/
def padded (width : Nat) (message : List UInt8) : List UInt8 :=
  let block := 16 * width
  let used := (message.length + 1 + 2 * width) % block
  let zeros := if used = 0 then 0 else block - used
  message ++ 0x80 :: List.replicate zeros 0 ++ bytesOfNumber (2 * width) (8 * message.length)

def digest (v : Variant w) (start : State w) (message : List UInt8) : List UInt8 :=
  let bytes := padded v.width message
  let block := 16 * v.width
  let compress (s : State w) (chunk : List UInt8) : State w :=
    let words := (blocks v.width 16 chunk).map fun bs => BitVec.ofNat w (numberOfBytes bs)
    s.add (rounds v v.roundConstants words s)
  let final := (blocks block (bytes.length / block) bytes).foldl compress start
  final.toList.flatMap fun word => bytesOfNumber v.width word.toNat

def start256 : State 32 := .ofList (squareRoots.map fun r => .ofNat 32 (r / 0x100000000))

def start384 : State 64 := .ofList ((squareRoots.drop 8).map (.ofNat 64))

def start512 : State 64 := .ofList (squareRoots.map (.ofNat 64))

end UserManagedAccess.Crypto.Sha2

namespace UserManagedAccess.Jose.Hash
open Crypto.Sha2

def digest : Hash → List UInt8 → List UInt8
  | .sha256, message => Crypto.Sha2.digest short start256 message
  | .sha384, message => (Crypto.Sha2.digest long start384 message).take 48
  | .sha512, message => Crypto.Sha2.digest long start512 message

/-- The bytes of a digest. -/
def size : Hash → Nat
  | .sha256 => 32
  | .sha384 => 48
  | .sha512 => 64

/-- The bytes that are taken in at a time. -/
def blockSize : Hash → Nat
  | .sha256 => 64
  | .sha384 | .sha512 => 128

/-- The digest of a message under a secret: a key longer than a block is digested first. -/
def mac (hash : Hash) (secret message : List UInt8) : List UInt8 :=
  let key := if secret.length > hash.blockSize then hash.digest secret else secret
  let key := key ++ List.replicate (hash.blockSize - key.length) 0
  hash.digest (key.map (· ^^^ 0x5C) ++ hash.digest (key.map (· ^^^ 0x36) ++ message))

end UserManagedAccess.Jose.Hash
