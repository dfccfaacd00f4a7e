import JsrProxy.Text

set_option autoImplicit false

/-!
# SHA-256

The hash function of FIPS 180-4 on byte strings, and its lower-case hexadecimal form.
-/
namespace JsrProxy.Sha256

def roundConstants : List UInt32 := [
  0x428a2f98, 0x71374491, 0xb5c0fbcf, 0xe9b5dba5, 0x3956c25b, 0x59f111f1, 0x923f82a4, 0xab1c5ed5,
  0xd807aa98, 0x12835b01, 0x243185be, 0x550c7dc3, 0x72be5d74, 0x80deb1fe, 0x9bdc06a7, 0xc19bf174,
  0xe49b69c1, 0xefbe4786, 0x0fc19dc6, 0x240ca1cc, 0x2de92c6f, 0x4a7484aa, 0x5cb0a9dc, 0x76f988da,
  0x983e5152, 0xa831c66d, 0xb00327c8, 0xbf597fc7, 0xc6e00bf3, 0xd5a79147, 0x06ca6351, 0x14292967,
  0x27b70a85, 0x2e1b2138, 0x4d2c6dfc, 0x53380d13, 0x650a7354, 0x766a0abb, 0x81c2c92e, 0x92722c85,
  0xa2bfe8a1, 0xa81a664b, 0xc24b8b70, 0xc76c51a3, 0xd192e819, 0xd6990624, 0xf40e3585, 0x106aa070,
  0x19a4c116, 0x1e376c08, 0x2748774c, 0x34b0bcb5, 0x391c0cb3, 0x4ed8aa4a, 0x5b9cca4f, 0x682e6ff3,
  0x748f82ee, 0x78a5636f, 0x84c87814, 0x8cc70208, 0x90befffa, 0xa4506ceb, 0xbef9a3f7, 0xc67178f2]

/-- The eight working variables, or the hash value between blocks. -/
structure Words where
  a : UInt32
  b : UInt32
  c : UInt32
  d : UInt32
  e : UInt32
  f : UInt32
  g : UInt32
  h : UInt32
deriving DecidableEq, Repr

def initial : Words :=
  ⟨0x6a09e667, 0xbb67ae85, 0x3c6ef372, 0xa54ff53a, 0x510e527f, 0x9b05688c, 0x1f83d9ab, 0x5be0cd19⟩

def rotr (n : UInt32) (x : UInt32) : UInt32 := x >>> n ||| x <<< (32 - n)

def word (a b c d : UInt8) : UInt32 :=
  a.toUInt32 <<< 24 ||| b.toUInt32 <<< 16 ||| c.toUInt32 <<< 8 ||| d.toUInt32

/-- The message schedule holds its last sixteen words, the newest first. -/
def scheduled (recent : List UInt32) : UInt32 :=
  let w (back : ℕ) := recent.getD (back - 1) 0
  let s0 := rotr 7 (w 15) ^^^ rotr 18 (w 15) ^^^ w 15 >>> 3
  let s1 := rotr 17 (w 2) ^^^ rotr 19 (w 2) ^^^ w 2 >>> 10
  w 16 + s0 + w 7 + s1

def round (v : Words) (k w : UInt32) : Words :=
  let s1 := rotr 6 v.e ^^^ rotr 11 v.e ^^^ rotr 25 v.e
  let ch := v.e &&& v.f ^^^ (~~~ v.e) &&& v.g
  let t1 := v.h + s1 + ch + k + w
  let s0 := rotr 2 v.a ^^^ rotr 13 v.a ^^^ rotr 22 v.a
  let maj := v.a &&& v.b ^^^ v.a &&& v.c ^^^ v.b &&& v.c
  ⟨t1 + (s0 + maj), v.a, v.b, v.c, v.d + t1, v.e, v.f, v.g⟩

/-- The rounds: the first sixteen take the words of the block, the others scheduled ones. -/
def rounds (v : Words) (block recent : List UInt32) : List UInt32 → Words
  | [] => v
  | k :: ks =>
    match block with
    | w :: rest => rounds (round v k w) rest (w :: recent) ks
    | [] => rounds (round v k (scheduled recent)) [] (scheduled recent :: recent.take 15) ks

def Words.add (v w : Words) : Words :=
  ⟨v.a + w.a, v.b + w.b, v.c + w.c, v.d + w.d, v.e + w.e, v.f + w.f, v.g + w.g, v.h + w.h⟩

def wordsOf : Bytes → List UInt32
  | a :: b :: c :: d :: rest => word a b c d :: wordsOf rest
  | _ => []

def blocks : ℕ → List UInt32 → Words → Words
  | 0, _, v => v
  | count + 1, words, v =>
    blocks count (words.drop 16) (v.add (rounds v (words.take 16) [] roundConstants))

def bigEndian (length n : ℕ) : Bytes :=
  (List.range length).reverse.map fun i => UInt8.ofNat (n / 256 ^ i)

def padded (message : Bytes) : Bytes :=
  message ++ 0x80 :: List.replicate ((119 - message.length % 64) % 64) 0 ++
    bigEndian 8 (message.length * 8)

def wordBytes (w : UInt32) : Bytes := bigEndian 4 w.toNat

@[irreducible] def digest (message : Bytes) : Bytes :=
  let v := blocks ((padded message).length / 64) (wordsOf (padded message)) initial
  [v.a, v.b, v.c, v.d, v.e, v.f, v.g, v.h].flatMap wordBytes

def hexByte (b : UInt8) : Str := [Nat.digitChar (b.toNat / 16), Nat.digitChar (b.toNat % 16)]

def hex (bytes : Bytes) : Str := bytes.flatMap hexByte

example : hex (digest []) =
    "e3b0c44298fc1c149afbf4c8996fb92427ae41e4649b934ca495991b7852b855".toList := by
  decide +kernel

theorem length_digest (message : Bytes) : (digest message).length = 32 := by
  simp [digest, wordBytes, bigEndian]

theorem length_hex (bytes : Bytes) : (hex bytes).length = 2 * bytes.length := by
  induction bytes with
  | nil => rfl
  | cons b bytes ih =>
    rw [hex, List.flatMap_cons, List.length_append, ← hex, ih, hexByte, List.length_cons]
    simp only [List.length_cons, List.length_nil]
    omega

def isHexDigit (c : Char) : Bool := c.isDigit || ('a' ≤ c && c ≤ 'f')

theorem isHexDigit_digitChar : ∀ n < 16, isHexDigit (Nat.digitChar n) = true := by decide

theorem isHexDigit_of_mem_hex {bytes : Bytes} {c : Char} (h : c ∈ hex bytes) :
    isHexDigit c = true := by
  obtain ⟨b, -, hc⟩ := List.mem_flatMap.1 h
  have hb := b.toNat_lt
  simp only [hexByte, List.mem_cons, List.not_mem_nil, or_false] at hc
  rcases hc with rfl | rfl
  · exact isHexDigit_digitChar _ (by omega)
  · exact isHexDigit_digitChar _ (by omega)

end JsrProxy.Sha256
