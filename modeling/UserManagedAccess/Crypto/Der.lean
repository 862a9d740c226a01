import UserManagedAccess.Crypto.Pem
import UserManagedAccess.Crypto.Rsa

/-! RSA private keys in DER, with and without the envelope that names the algorithm. -/
namespace UserManagedAccess.Crypto

namespace Der
open Sha2

/-- The length of a value in its one shortest form. -/
def length? : List UInt8 → Option (Nat × List UInt8)
  | [] => none
  | b :: rest =>
    if b < 0x80 then some (b.toNat, rest)
    else
      let count := b.toNat - 0x80
      let bytes := rest.take count
      let length := numberOfBytes bytes
      if count = 0 || 4 < count || bytes.length < count then none
      else if bytes.headD 0 = 0 || length < 0x80 then none
      else some (length, rest.drop count)

/-- The content of a value with the given tag, and what follows it. -/
def value? (tag : UInt8) : List UInt8 → Option (List UInt8 × List UInt8)
  | [] => none
  | t :: rest =>
    if t != tag then none
    else
      match length? rest with
      | none => none
      | some (length, rest) =>
        if rest.length < length then none else some (rest.take length, rest.drop length)

/-- A number that is not negative, in its one shortest form. -/
def number? (bytes : List UInt8) : Option (Nat × List UInt8) := do
  let (content, rest) ← value? 0x02 bytes
  match content with
  | [] => none
  | [b] => if b < 0x80 then some (b.toNat, rest) else none
  | a :: b :: more =>
    if 0x80 ≤ a || (a = 0 && b < 0x80) then none
    else some (numberOfBytes (a :: b :: more), rest)

end Der

namespace Rsa.PrivateKey
open Der

/-- The object identifier of RSA keys, and the empty parameters after it. -/
def algorithmContent : List UInt8 :=
  [0x06, 0x09, 0x2A, 0x86, 0x48, 0x86, 0xF7, 0x0D, 0x01, 0x01, 0x01, 0x05, 0x00]

/-- The numbers of a key with two primes, the key valid. -/
def ofDer? (bytes : List UInt8) : Option PrivateKey := do
  let (content, []) ← value? 0x30 bytes | none
  let (0, content) ← number? content | none
  let (modulus, content) ← number? content
  let (publicExponent, content) ← number? content
  let (privateExponent, content) ← number? content
  let (prime1, content) ← number? content
  let (prime2, content) ← number? content
  let (_, content) ← number? content
  let (_, content) ← number? content
  let (_, []) ← number? content | none
  let key : PrivateKey := ⟨modulus, publicExponent, privateExponent, prime1, prime2⟩
  if key.isValid then some key else none

/-- The key within an envelope; attributes may follow it. -/
def ofEnvelope? (bytes : List UInt8) : Option PrivateKey := do
  let (content, []) ← value? 0x30 bytes | none
  let (0, content) ← number? content | none
  let (algorithm, content) ← value? 0x30 content
  let (key, rest) ← value? 0x04 content
  if algorithm != algorithmContent then none
  else if rest.isEmpty || (value? 0xA0 rest).any (·.2.isEmpty) then ofDer? key
  else none

def ofPem? (text : String) : Option PrivateKey := do
  let pem ← Pem.parse? text
  if pem.label = "PRIVATE KEY" then ofEnvelope? pem.content
  else if pem.label = "RSA PRIVATE KEY" then ofDer? pem.content
  else none

end Rsa.PrivateKey

end UserManagedAccess.Crypto
