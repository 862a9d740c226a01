import UserManagedAccess.Crypto.Sha2

/-! RSA signatures in the two paddings of PKCS #1. -/
namespace UserManagedAccess.Crypto

def powMod (modulus base exponent : Nat) : Nat :=
  if h : exponent = 0 then 1 % modulus
  else
    let root := powMod modulus (base * base % modulus) (exponent / 2)
    if exponent % 2 = 1 then base * root % modulus else root
termination_by exponent
decreasing_by omega

def bitLength (n : Nat) : Nat := if n = 0 then 0 else n.log2 + 1

namespace Rsa
open Sha2

/-- A public key as it was published: the bytes of the modulus and of the exponent. -/
structure PublicKey where
  modulus : List UInt8
  exponent : List UInt8
  deriving DecidableEq, Repr

structure PrivateKey where
  modulus : Nat
  publicExponent : Nat
  privateExponent : Nat
  prime1 : Nat
  prime2 : Nat
  deriving DecidableEq, Repr

/-- The bytes of a positive number, without leading zeros. -/
def minimalBytes (n : Nat) : List UInt8 := bytesOfNumber ((bitLength n + 7) / 8) n

def PrivateKey.publicKey (key : PrivateKey) : PublicKey :=
  ⟨minimalBytes key.modulus, minimalBytes key.publicExponent⟩

/-- The bytes of a signature. -/
def PrivateKey.size (key : PrivateKey) : Nat := (bitLength key.modulus + 7) / 8

/-- The prime factors make up the modulus, and the exponents undo each other. -/
def PrivateKey.isValid (key : PrivateKey) : Bool :=
  key.modulus % 2 == 1 && bitLength key.modulus ≤ 4096 &&
    key.publicExponent % 2 == 1 && 2 ≤ key.publicExponent && key.publicExponent < 0x200000000 &&
    key.publicExponent < key.modulus &&
    1 < key.prime1 && 1 < key.prime2 && key.prime1 * key.prime2 == key.modulus &&
    key.publicExponent * key.privateExponent % (key.prime1 - 1) == 1 % (key.prime1 - 1) &&
    key.publicExponent * key.privateExponent % (key.prime2 - 1) == 1 % (key.prime2 - 1)

/-- The DER header that names the hash of a digest. -/
def digestHeader (hash : Jose.Hash) : List UInt8 :=
  let tag : UInt8 :=
    match hash with
    | .sha256 => 1
    | .sha384 => 2
    | .sha512 => 3
  let size := UInt8.ofNat hash.size
  [0x30, size + 17, 0x30, 0x0D, 0x06, 0x09, 0x60, 0x86, 0x48, 0x01, 0x65, 0x03, 0x04, 0x02, tag,
    0x05, 0x00, 0x04, size]

/-- The one encoding of a message's digest in `size` bytes. -/
def encodePkcs1 (hash : Jose.Hash) (size : Nat) (message : List UInt8) : List UInt8 :=
  let tail := digestHeader hash ++ hash.digest message
  0x00 :: 0x01 :: List.replicate (size - 3 - tail.length) 0xFF ++ 0x00 :: tail

/-- Signs with PKCS #1 v1.5 padding. -/
def PrivateKey.sign (key : PrivateKey) (hash : Jose.Hash) (message : List UInt8) : List UInt8 :=
  let encoded := numberOfBytes (encodePkcs1 hash key.size message)
  bytesOfNumber key.size (powMod key.modulus encoded key.privateExponent)

/-- A mask of `size` bytes made of a seed. -/
def mask (hash : Jose.Hash) (size : Nat) (seed : List UInt8) : List UInt8 :=
  let count := (size + hash.size - 1) / hash.size
  ((List.range count).flatMap fun i => hash.digest (seed ++ bytesOfNumber 4 i)).take size

/-- Whether an encoding is one of a message with a salt as long as the digest. The encoding has one
bit less than the modulus. -/
def checksPss (hash : Jose.Hash) (bits : Nat) (encoded message : List UInt8) : Bool :=
  let size := (bits + 7) / 8
  let spare := 8 * size - bits
  let dataSize := size - hash.size - 1
  let data := encoded.take dataSize
  let seed := (encoded.drop dataSize).take hash.size
  let unmasked := List.zipWith (· ^^^ ·) data (mask hash dataSize seed)
  let cleared := unmasked.modifyHead fun b => UInt8.ofNat (b.toNat % Nat.pow 2 (8 - spare))
  let zeros := dataSize - hash.size - 1
  let salt := cleared.drop (zeros + 1)
  2 * hash.size + 2 ≤ size && encoded.length == size && encoded.getLast? == some 0xBC &&
    (data.headD 0).toNat < Nat.pow 2 (8 - spare) &&
    (cleared.take zeros).all (· == 0) && cleared.getD zeros 0 == 1 &&
    hash.digest (List.replicate 8 0 ++ hash.digest message ++ salt) == seed

/-- The number that a signature was made of, in as many bytes as the modulus has; only keys of 2048
to 8192 bits and exponents of up to 33 bits are accepted. -/
def PublicKey.recover (key : PublicKey) (signature : List UInt8) : Option (Nat × Nat) :=
  let n := numberOfBytes key.modulus
  let e := numberOfBytes key.exponent
  let size := key.modulus.length
  let s := numberOfBytes signature
  if key.modulus.headD 0 == 0 || key.exponent.headD 0 == 0 then none
  else if n % 2 = 0 || size < 256 || 1024 < size then none
  else if e % 2 = 0 || e < 3 || 0x200000000 ≤ e then none
  else if signature.length != size || n ≤ s || s = 0 then none
  else some (bitLength n, powMod n s e)

/-- Whether a signature was made by the owner of the key. -/
def PublicKey.verifyPkcs1 (key : PublicKey) (hash : Jose.Hash) (message signature : List UInt8) :
    Bool :=
  match key.recover signature with
  | none => false
  | some (_, encoded) =>
    let size := key.modulus.length
    bytesOfNumber size encoded == encodePkcs1 hash size message

def PublicKey.verifyPss (key : PublicKey) (hash : Jose.Hash) (message signature : List UInt8) :
    Bool :=
  match key.recover signature with
  | none => false
  | some (bits, encoded) =>
    let size := (bits - 1 + 7) / 8
    encoded < Nat.pow 256 size && checksPss hash (bits - 1) (bytesOfNumber size encoded) message

end Rsa

end UserManagedAccess.Crypto
