import Mathlib.FieldTheory.Finite.Basic
import Mathlib.NumberTheory.LucasPrimality
import Mathlib.Tactic.NormNum.Prime
import UserManagedAccess.Crypto.Rsa

/-! RSA signatures: what is signed with a private key is accepted under its public part. -/
namespace UserManagedAccess.Crypto

private theorem pow_square_mod (modulus base half : Nat) :
    (base * base % modulus) ^ half % modulus = base ^ (2 * half) % modulus := by
  rw [← Nat.pow_mod, pow_mul, sq]

theorem powMod_eq (modulus base exponent : Nat) :
    powMod modulus base exponent = base ^ exponent % modulus := by
  induction base, exponent using powMod.induct modulus with
  | case1 base => simp [powMod]
  | case2 base exponent hne hodd ih =>
    have hexponent : exponent = 2 * (exponent / 2) + 1 := by omega
    rw [powMod, dif_neg hne, if_pos hodd, ih, pow_square_mod, Nat.mul_mod_mod, ← pow_succ',
      ← hexponent]
  | case3 base exponent hne heven ih =>
    have hexponent : exponent = 2 * (exponent / 2) := by omega
    rw [powMod, dif_neg hne, if_neg heven, ih, pow_square_mod, ← hexponent]

namespace Sha2

/-! ## Numbers as bytes -/

@[simp] theorem length_bytesOfNumber (count n : Nat) : (bytesOfNumber count n).length = count := by
  simp [bytesOfNumber]

theorem numberOfBytes_append (xs : List UInt8) (b : UInt8) :
    numberOfBytes (xs ++ [b]) = numberOfBytes xs * 256 + b.toNat := by
  simp [numberOfBytes]

theorem bytesOfNumber_succ (count n : Nat) :
    bytesOfNumber (count + 1) n = bytesOfNumber count (n / 256) ++ [UInt8.ofNat n] := by
  simp only [bytesOfNumber, List.range_succ, List.map_append, List.map_cons, List.map_nil]
  congr 1
  · refine List.map_congr_left fun i hi => ?_
    have hlt := List.mem_range.mp hi
    have hplaces : count + 1 - 1 - i = count - 1 - i + 1 := by omega
    have hpow : Nat.pow 256 (count - 1 - i + 1) = 256 * Nat.pow 256 (count - 1 - i) :=
      Nat.pow_succ'
    rw [hplaces, hpow, Nat.div_div_eq_div_mul]
  · simp

theorem numberOfBytes_bytesOfNumber {count n : Nat} (h : n < 256 ^ count) :
    numberOfBytes (bytesOfNumber count n) = n := by
  induction count generalizing n with
  | zero =>
    have hzero : n = 0 := by simpa using h
    rw [hzero]
    rfl
  | succ count ih =>
    have hfront : n / 256 < 256 ^ count := by
      rw [pow_succ] at h
      omega
    rw [bytesOfNumber_succ, numberOfBytes_append, ih hfront, UInt8.toNat_ofNat']
    omega

theorem bytesOfNumber_numberOfBytes (xs : List UInt8) :
    bytesOfNumber xs.length (numberOfBytes xs) = xs := by
  induction xs using List.reverseRecOn with
  | nil => rfl
  | append_singleton xs b ih =>
    have hb := b.toNat_lt
    have hfront : (numberOfBytes xs * 256 + b.toNat) / 256 = numberOfBytes xs := by omega
    have hlast : UInt8.ofNat (numberOfBytes xs * 256 + b.toNat) = b := by
      apply UInt8.toNat_inj.mp
      rw [UInt8.toNat_ofNat']
      omega
    rw [List.length_append, List.length_singleton, bytesOfNumber_succ, numberOfBytes_append, hfront,
      ih, hlast]

theorem numberOfBytes_lt (xs : List UInt8) : numberOfBytes xs < 256 ^ xs.length := by
  induction xs using List.reverseRecOn with
  | nil => exact Nat.one_pos
  | append_singleton xs b ih =>
    have hb := b.toNat_lt
    rw [numberOfBytes_append, List.length_append, List.length_singleton, pow_succ]
    omega

theorem numberOfBytes_cons (b : UInt8) (xs : List UInt8) :
    numberOfBytes (b :: xs) = b.toNat * 256 ^ xs.length + numberOfBytes xs := by
  induction xs using List.reverseRecOn with
  | nil => simp [numberOfBytes]
  | append_singleton xs c ih =>
    rw [← List.cons_append, numberOfBytes_append, numberOfBytes_append, ih, List.length_append,
      List.length_singleton, pow_succ]
    ring

theorem length_digest_le (hash : Jose.Hash) (message : List UInt8) :
    (hash.digest message).length ≤ 64 := by
  have hlength {w : Nat} (v : Variant w) (start : State w) :
      (digest v start message).length = 8 * v.width := by
    simp [digest, State.toList]
    omega
  cases hash with
  | sha256 => exact (hlength short start256).trans_le (by decide)
  | sha384 => exact (List.length_take_le _ _).trans (by decide)
  | sha512 => exact (hlength long start512).trans_le (by decide)

end Sha2

namespace Rsa
open Sha2

/-! ## The parts of a key -/

section
variable {n : Nat} (hn : 0 < n)
include hn

private theorem bitLength_eq : bitLength n = n.log2 + 1 := if_neg hn.ne'

/-- A number has as many bytes as it needs. -/
private theorem minimal_bounds :
    256 ^ ((bitLength n + 7) / 8 - 1) ≤ n ∧ n < 256 ^ ((bitLength n + 7) / 8) := by
  have hbits := bitLength_eq hn
  have hlow : 2 ^ n.log2 ≤ n := Nat.log2_self_le hn.ne'
  have hhigh : n < 2 ^ (n.log2 + 1) := Nat.lt_log2_self
  have hbyte (k : Nat) : 256 ^ k = 2 ^ (8 * k) := by rw [pow_mul]; norm_num
  rw [hbyte, hbyte]
  constructor
  · exact (Nat.pow_le_pow_right (by omega) (by omega)).trans hlow
  · exact hhigh.trans_le (Nat.pow_le_pow_right (by omega) (by omega))

private theorem length_minimalBytes_pos : 0 < (bitLength n + 7) / 8 := by
  have hbits := bitLength_eq hn
  omega

private theorem numberOfBytes_minimalBytes : numberOfBytes (minimalBytes n) = n :=
  numberOfBytes_bytesOfNumber (minimal_bounds hn).2

private theorem headD_minimalBytes : ((minimalBytes n).headD 0 == 0) = false := by
  obtain ⟨hlow, hhigh⟩ := minimal_bounds hn
  obtain ⟨count, hcount⟩ := Nat.exists_eq_succ_of_ne_zero (length_minimalBytes_pos hn).ne'
  have hnumber := numberOfBytes_minimalBytes hn
  have hlength : (minimalBytes n).length = count + 1 := by
    rw [minimalBytes, length_bytesOfNumber, hcount]
  cases hbytes : minimalBytes n with
  | nil =>
    rw [hbytes] at hlength
    cases hlength
  | cons b bs =>
    rw [hbytes] at hnumber hlength
    rw [hcount, Nat.succ_eq_add_one, Nat.add_sub_cancel] at hlow
    have hrest := numberOfBytes_lt bs
    rw [numberOfBytes_cons] at hnumber
    rw [List.length_cons, Nat.add_right_cancel_iff] at hlength
    rw [hlength] at hrest hnumber
    refine beq_false_of_ne fun hzero => ?_
    rw [List.headD_cons] at hzero
    rw [hzero, UInt8.toNat_zero] at hnumber
    omega

end

/-! ## The encoding of a message -/

section
variable (hash : Jose.Hash) {size : Nat} (hsize : 256 ≤ size) (message : List UInt8)
include hsize

private theorem length_encodePkcs1 : (encodePkcs1 hash size message).length = size := by
  have hdigest := length_digest_le hash message
  simp [encodePkcs1, digestHeader]
  omega

/-- The encoding is a number below every modulus of the size. -/
private theorem encodePkcs1_bounds :
    0 < numberOfBytes (encodePkcs1 hash size message) ∧
      numberOfBytes (encodePkcs1 hash size message) < 256 ^ (size - 1) := by
  have hlength := length_encodePkcs1 hash hsize message
  obtain ⟨rest, hrest⟩ : ∃ rest, encodePkcs1 hash size message = 0x00 :: 0x01 :: rest := ⟨_, rfl⟩
  rw [hrest, List.length_cons] at hlength
  have hzero : numberOfBytes (0x00 :: 0x01 :: rest) = numberOfBytes (0x01 :: rest) := by
    rw [numberOfBytes_cons]
    simp
  have hone : numberOfBytes (0x01 :: rest) = 256 ^ rest.length + numberOfBytes rest := by
    rw [numberOfBytes_cons]
    simp
  have hpos : 0 < 256 ^ rest.length := Nat.pow_pos (by omega)
  have hlt := numberOfBytes_lt (0x01 :: rest)
  have hsize' : (0x01 :: rest).length = size - 1 := by
    omega
  rw [hrest, hzero, ← hsize']
  exact ⟨by omega, hlt⟩

end

/-! ## Signatures -/

/-- Exponents that undo each other modulo a prime. -/
private theorem pow_modEq_self {p k x : Nat} (hp : p.Prime) (hk : 0 < k)
    (h : k % (p - 1) = 1 % (p - 1)) : x ^ k ≡ x [MOD p] := by
  have := Fact.mk hp
  obtain ⟨t, ht⟩ := (Nat.modEq_iff_dvd' hk).mp (Nat.ModEq.symm h)
  have hexponent : k = (p - 1) * t + 1 := by omega
  rw [← ZMod.natCast_eq_natCast_iff, Nat.cast_pow, hexponent, pow_succ, pow_mul]
  by_cases hx : (x : ZMod p) = 0
  · rw [hx, mul_zero]
  · rw [ZMod.pow_card_sub_one_eq_one hx, one_pow, one_mul]

namespace PrivateKey

/-- Every signature that was made with the key is accepted under its public part. -/
def SignaturesVerify (key : PrivateKey) (hash : Jose.Hash) : Prop :=
  ∀ message, key.publicKey.verifyPkcs1 hash message (key.sign hash message) = true

/-- The factors of the modulus are two primes, and the exponents undo each other. -/
structure IsSound (key : PrivateKey) : Prop where
  valid : key.isValid = true
  prime1 : key.prime1.Prime
  prime2 : key.prime2.Prime
  distinct : key.prime1 ≠ key.prime2

variable {key : PrivateKey}

theorem IsSound.pow_exponents (h : key.IsSound) {x : Nat} (hx : x < key.modulus) :
    (x ^ key.privateExponent % key.modulus) ^ key.publicExponent % key.modulus = x := by
  have hvalid := h.valid
  simp only [isValid, Bool.and_eq_true, beq_iff_eq, decide_eq_true_eq] at hvalid
  obtain ⟨⟨⟨⟨⟨⟨⟨⟨⟨⟨hodd, -⟩, -⟩, -⟩, -⟩, -⟩, hgt⟩, -⟩, hmodulus⟩, hfirst⟩, hsecond⟩ := hvalid
  have hpos : 0 < key.publicExponent * key.privateExponent := by
    refine Nat.pos_of_ne_zero fun hzero => ?_
    rw [hzero, Nat.zero_mod] at hfirst
    have htwo : key.prime1 = 2 := by
      rcases Nat.lt_or_ge 1 (key.prime1 - 1) with hlt | hle
      · rw [Nat.mod_eq_of_lt hlt] at hfirst
        cases hfirst
      · omega
    rw [← hmodulus, htwo] at hodd
    omega
  have hcoprime : key.prime1.Coprime key.prime2 :=
    (Nat.coprime_primes h.prime1 h.prime2).mpr h.distinct
  have hself : x ^ (key.publicExponent * key.privateExponent) ≡ x [MOD key.modulus] := by
    rw [← hmodulus, ← Nat.modEq_and_modEq_iff_modEq_mul hcoprime]
    exact ⟨pow_modEq_self h.prime1 hpos hfirst, pow_modEq_self h.prime2 hpos hsecond⟩
  rw [← Nat.pow_mod, ← pow_mul, Nat.mul_comm key.privateExponent]
  exact Eq.trans hself (Nat.mod_eq_of_lt hx)

/-- What the owner of a key signs is accepted by whoever has the public key. -/
theorem IsSound.signaturesVerify (h : key.IsSound) (hsize : 256 ≤ key.size) (hash : Jose.Hash) :
    key.SignaturesVerify hash := by
  intro message
  have hvalid := h.valid
  simp only [isValid, Bool.and_eq_true, beq_iff_eq, decide_eq_true_eq] at hvalid
  obtain ⟨⟨⟨⟨⟨⟨⟨⟨⟨⟨hodd, hbits⟩, hexponentOdd⟩, hlow⟩, hhigh⟩, hless⟩, -⟩, -⟩, -⟩, -⟩, -⟩ := hvalid
  have hmodulus : 0 < key.modulus := by omega
  have hexponent : 0 < key.publicExponent := by omega
  have hbound : key.size ≤ 512 := by
    rw [size]
    omega
  have hlength : key.publicKey.modulus.length = key.size := length_bytesOfNumber _ _
  obtain ⟨hfits, hspace⟩ := minimal_bounds hmodulus
  obtain ⟨hnonzero, hencoded⟩ := encodePkcs1_bounds hash hsize message
  have hroot := h.pow_exponents (hencoded.trans_le hfits)
  have hsign : key.sign hash message = bytesOfNumber key.size
      (numberOfBytes (encodePkcs1 hash key.size message) ^ key.privateExponent % key.modulus) := by
    rw [sign, powMod_eq]
  have hencode := bytesOfNumber_numberOfBytes (encodePkcs1 hash key.size message)
  rw [length_encodePkcs1 hash hsize] at hencode
  generalize numberOfBytes (encodePkcs1 hash key.size message) = number at *
  have hless' : number ^ key.privateExponent % key.modulus < key.modulus := Nat.mod_lt _ hmodulus
  generalize number ^ key.privateExponent % key.modulus = signature at *
  have hpositive : signature ≠ 0 := by
    rintro rfl
    rw [zero_pow hexponent.ne', Nat.zero_mod] at hroot
    omega
  have hsignature : numberOfBytes (bytesOfNumber key.size signature) = signature :=
    numberOfBytes_bytesOfNumber (hless'.trans hspace)
  have hrecover : key.publicKey.recover (key.sign hash message) =
      some (bitLength key.modulus, number) := by
    rw [hsign, PublicKey.recover]
    simp only [hlength, hsignature, length_bytesOfNumber]
    simp only [publicKey, numberOfBytes_minimalBytes hmodulus, numberOfBytes_minimalBytes hexponent,
      headD_minimalBytes hmodulus, headD_minimalBytes hexponent, powMod_eq, hroot]
    rw [if_neg (by simp), if_neg (by simp; omega), if_neg (by simp; omega), if_neg (by simp; omega)]
  rw [PublicKey.verifyPkcs1, hrecover]
  simp only [hlength, hencode, BEq.rfl]

end PrivateKey

/-! ## A key of 2047 bits -/

/-- A number after it was squared so many times. -/
def squares (modulus : Nat) : (count root : Nat) → Nat
  | 0, root => root
  | count + 1, root => squares modulus count (root * root % modulus)

private theorem squares_mod (modulus count root : Nat) :
    squares modulus count root % modulus = root ^ 2 ^ count % modulus := by
  induction count generalizing root with
  | zero => simp [squares]
  | succ count ih => rw [squares, ih, ← Nat.pow_mod, ← sq, ← pow_mul, ← pow_succ']

private theorem natCast_pow_eq_one_iff {p : Nat} (hp : 2 ≤ p) (a n : Nat) :
    (a : ZMod p) ^ n = 1 ↔ a ^ n % p = 1 := by
  rw [← Nat.cast_pow, ← Nat.cast_one, ZMod.natCast_eq_natCast_iff', Nat.mod_eq_of_lt hp]

/-- The test of Lucas for a number that exceeds a prime times a power of two by one. -/
theorem prime_of_squares {p : Nat} (k count a : Nat) (hk : k.Prime)
    (hp : p = k * 2 ^ (count + 1) + 1)
    (hone : squares p (count + 1) (a ^ k) % p = 1) (hhalf : squares p count (a ^ k) % p ≠ 1)
    (hrest : squares p (count + 1) a % p ≠ 1) : p.Prime := by
  have hpow : 0 < 2 ^ (count + 1) := Nat.two_pow_pos _
  have htwo : 2 ≤ p := by
    have hfactors : 0 < k * 2 ^ (count + 1) := Nat.mul_pos hk.pos hpow
    omega
  rw [squares_mod, ← pow_mul] at hone hhalf
  rw [squares_mod] at hrest
  have hless : p - 1 = k * 2 ^ (count + 1) := by omega
  refine lucas_primality p a ?_ fun q hq hdvd => ?_
  · rw [hless]
    exact (natCast_pow_eq_one_iff htwo a _).mpr hone
  · rw [hless] at hdvd ⊢
    rw [ne_eq, natCast_pow_eq_one_iff htwo]
    rcases hq.dvd_mul.mp hdvd with hdvd | hdvd
    · rw [(Nat.prime_dvd_prime_iff_eq hq hk).mp hdvd, Nat.mul_div_cancel_left _ hk.pos]
      exact hrest
    · rw [(Nat.prime_dvd_prime_iff_eq hq Nat.prime_two).mp (hq.dvd_of_dvd_pow hdvd), pow_succ,
        ← Nat.mul_assoc, Nat.mul_div_cancel _ (by decide)]
      exact hhalf

def samplePrime1 : Nat := 3931 * 2 ^ 1012 + 1

def samplePrime2 : Nat := 953 * 2 ^ 1013 + 1

theorem prime_samplePrime1 : samplePrime1.Prime :=
  prime_of_squares 3931 1011 3 (by norm_num) (by decide +kernel) (by decide +kernel)
    (by decide +kernel) (by decide +kernel)

theorem prime_samplePrime2 : samplePrime2.Prime :=
  prime_of_squares 953 1012 3 (by norm_num) (by decide +kernel) (by decide +kernel)
    (by decide +kernel) (by decide +kernel)

/-- A key with the usual public exponent. -/
def sampleKey : PrivateKey where
  modulus := samplePrime1 * samplePrime2
  publicExponent := 65537
  privateExponent := (22236 * ((samplePrime1 - 1) * (samplePrime2 - 1)) + 1) / 65537
  prime1 := samplePrime1
  prime2 := samplePrime2

theorem isSound_sampleKey : sampleKey.IsSound where
  valid := by decide +kernel
  prime1 := prime_samplePrime1
  prime2 := prime_samplePrime2
  distinct := by decide +kernel

theorem signaturesVerify_sampleKey (hash : Jose.Hash) : sampleKey.SignaturesVerify hash :=
  isSound_sampleKey.signaturesVerify (by decide +kernel) hash

end Rsa

end UserManagedAccess.Crypto
