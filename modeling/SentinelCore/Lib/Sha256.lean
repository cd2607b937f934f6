import Mathlib.Data.Nat.Notation
import Mathlib.Data.List.Range

/-!
# SHA-256

The hash function of FIPS 180-4. The eight words of the state and the sixteen of the message schedule are
packed into one number each, the first of them lowest, so that a digest of a sample is computed on numbers.
-/

namespace Lib.Sha256

/-- Word `i` of a packed number. -/
def word (s i : ℕ) : ℕ := (s.shiftRight (i.mul 32)).mod 0x100000000

/-- The words, packed. -/
def pack : List ℕ → ℕ
  | [] => 0
  | w :: ws => w + 0x100000000 * pack ws

/-- The word rotated to the right. -/
def rotr (w n : ℕ) : ℕ := (w.shiftRight n).lor ((w.shiftLeft (Nat.sub 32 n)).mod 0x100000000)

def xor3 (a b c : ℕ) : ℕ := (a.xor b).xor c

/-- The first 32 bits of the fractions of the cube roots of the first 64 primes. -/
def constants : List ℕ := [
  0x428a2f98, 0x71374491, 0xb5c0fbcf, 0xe9b5dba5, 0x3956c25b, 0x59f111f1, 0x923f82a4, 0xab1c5ed5,
  0xd807aa98, 0x12835b01, 0x243185be, 0x550c7dc3, 0x72be5d74, 0x80deb1fe, 0x9bdc06a7, 0xc19bf174,
  0xe49b69c1, 0xefbe4786, 0x0fc19dc6, 0x240ca1cc, 0x2de92c6f, 0x4a7484aa, 0x5cb0a9dc, 0x76f988da,
  0x983e5152, 0xa831c66d, 0xb00327c8, 0xbf597fc7, 0xc6e00bf3, 0xd5a79147, 0x06ca6351, 0x14292967,
  0x27b70a85, 0x2e1b2138, 0x4d2c6dfc, 0x53380d13, 0x650a7354, 0x766a0abb, 0x81c2c92e, 0x92722c85,
  0xa2bfe8a1, 0xa81a664b, 0xc24b8b70, 0xc76c51a3, 0xd192e819, 0xd6990624, 0xf40e3585, 0x106aa070,
  0x19a4c116, 0x1e376c08, 0x2748774c, 0x34b0bcb5, 0x391c0cb3, 0x4ed8aa4a, 0x5b9cca4f, 0x682e6ff3,
  0x748f82ee, 0x78a5636f, 0x84c87814, 0x8cc70208, 0x90befffa, 0xa4506ceb, 0xbef9a3f7, 0xc67178f2]

/-- The first 32 bits of the fractions of the square roots of the first eight primes. -/
def start : ℕ := pack [0x6a09e667, 0xbb67ae85, 0x3c6ef372, 0xa54ff53a,
  0x510e527f, 0x9b05688c, 0x1f83d9ab, 0x5be0cd19]

/-- What the second half of the state, a constant and a word of the message contribute to a round. -/
def lower (s k w : ℕ) : ℕ :=
  (((word s 7).add (xor3 (rotr (word s 4) 6) (rotr (word s 4) 11) (rotr (word s 4) 25))).add
    (((word s 4).land (word s 5)).xor ((Nat.sub 0xffffffff (word s 4)).land (word s 6)))).add (k.add w)

/-- What the first half of the state contributes. -/
def upper (s : ℕ) : ℕ :=
  (xor3 (rotr (word s 0) 2) (rotr (word s 0) 13) (rotr (word s 0) 22)).add
    (xor3 ((word s 0).land (word s 1)) ((word s 0).land (word s 2)) ((word s 1).land (word s 2)))

/-- The words of the state move on by one place; the first and the fifth are new. -/
def shift (s t u : ℕ) : ℕ :=
  (((s.shiftLeft 32).add ((t.add u).mod 0x100000000)).mod 0x100000000000000000000000000000000).add
    (((((s.shiftRight 128).shiftLeft 32).add (((word s 3).add t).mod 0x100000000)).mod
      0x100000000000000000000000000000000).shiftLeft 128)

/-- The schedule one word later. -/
def extend (w : ℕ) : ℕ :=
  (w.shiftRight 32).add ((((((word w 0).add
    (xor3 (rotr (word w 1) 7) (rotr (word w 1) 18) ((word w 1).shiftRight 3))).add (word w 9)).add
    (xor3 (rotr (word w 14) 17) (rotr (word w 14) 19) ((word w 14).shiftRight 10))).mod
    0x100000000).shiftLeft 480)

def rounds : List ℕ → ℕ → ℕ → ℕ
  | [], s, _ => s
  | k :: ks, s, w => rounds ks (shift s (lower s k (word w 0)) (upper s)) (extend w)

/-- The state after a block of sixteen words. -/
def compress (s w : ℕ) : ℕ :=
  let t := rounds constants s w
  pack ((List.range 8).map fun i => (word s i + word t i) % 0x100000000)

/-- The lists of `n` elements that make up a list, at most `count` of them. -/
def chunks (n : ℕ) : ℕ → List ℕ → List (List ℕ)
  | 0, _ => []
  | count + 1, l => l.take n :: chunks n count (l.drop n)

def bigEndian (bytes : List ℕ) : ℕ := bytes.foldl (fun n b => 256 * n + b) 0

/-- The message, a bit, zeros and the length in bits, in blocks of 64 bytes. -/
def pad (message : List ℕ) : List ℕ :=
  message ++ 0x80 :: (List.replicate ((119 - message.length % 64) % 64) 0 ++
    (List.range 8).map fun i => (8 * message.length) >>> (8 * (7 - i)) % 256)

/-- The digest, as 32 numbers below 256. -/
def digest (message : List ℕ) : List ℕ :=
  let blocks := chunks 64 (message.length / 64 + 2) (pad message)
  let s := (blocks.filter (· ≠ [])).foldl (fun s b => compress s (pack ((chunks 4 16 b).map bigEndian))) start
  (List.range 32).map fun i => word s (i / 4) >>> (8 * (3 - i % 4)) % 256

theorem length_digest (message : List ℕ) : (digest message).length = 32 := by
  unfold digest
  rw [List.length_map, List.length_range]

example : digest [0x61, 0x62, 0x63] = [
    0xba, 0x78, 0x16, 0xbf, 0x8f, 0x01, 0xcf, 0xea, 0x41, 0x41, 0x40, 0xde, 0x5d, 0xae, 0x22, 0x23,
    0xb0, 0x03, 0x61, 0xa3, 0x96, 0x17, 0x7a, 0x9c, 0xb4, 0x10, 0xff, 0x61, 0xf2, 0x00, 0x15, 0xad] := by
  decide +kernel

end Lib.Sha256
