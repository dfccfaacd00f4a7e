import JsrProxy.Text

set_option autoImplicit false

/-!
# UTF-8

The encoder, and the decoder of the encoding standard, which replaces ill-formed
sequences and drops a leading byte order mark.
-/
namespace JsrProxy.Utf8

def encode (text : Str) : Bytes := text.flatMap String.utf8EncodeChar

/-- A character under way: the bytes still needed, the bounds of the next one and
    the code point so far. -/
structure Pending where
  needed : ℕ
  lower : ℕ
  upper : ℕ
  codePoint : ℕ
deriving DecidableEq, Repr

def replacement : Char := '\ufffd'

def stepInitial (b : ℕ) : Str × Option Pending :=
  if b ≤ 0x7f then ([Char.ofNat b], none)
  else if 0xc2 ≤ b ∧ b ≤ 0xdf then ([], some ⟨1, 0x80, 0xbf, b - 0xc0⟩)
  else if 0xe0 ≤ b ∧ b ≤ 0xef then
    ([], some ⟨2, if b = 0xe0 then 0xa0 else 0x80, if b = 0xed then 0x9f else 0xbf, b - 0xe0⟩)
  else if 0xf0 ≤ b ∧ b ≤ 0xf4 then
    ([], some ⟨3, if b = 0xf0 then 0x90 else 0x80, if b = 0xf4 then 0x8f else 0xbf, b - 0xf0⟩)
  else ([replacement], none)

/-- A byte out of bounds ends the character under way and is read again on its own. -/
def step (state : Option Pending) (b : ℕ) : Str × Option Pending :=
  match state with
  | none => stepInitial b
  | some p =>
    if p.lower ≤ b ∧ b ≤ p.upper then
      let codePoint := p.codePoint * 64 + (b - 0x80)
      if p.needed = 1 then ([Char.ofNat codePoint], none)
      else ([], some ⟨p.needed - 1, 0x80, 0xbf, codePoint⟩)
    else
      let (emitted, next) := stepInitial b
      (replacement :: emitted, next)

def decodeFrom (state : Option Pending) : Bytes → Str
  | [] => if state.isSome then [replacement] else []
  | b :: rest => (step state b.toNat).1 ++ decodeFrom (step state b.toNat).2 rest

def stripMark : Bytes → Bytes
  | 0xef :: 0xbb :: 0xbf :: rest => rest
  | bytes => bytes

def decode (bytes : Bytes) : Str := decodeFrom none (stripMark bytes)

/-- The text of well-formed bytes: the one whose encoding they are. -/
def decode? (bytes : Bytes) : Option Str :=
  if encode (decodeFrom none bytes) = bytes then some (decodeFrom none bytes) else none

@[simp] theorem encode_nil : encode [] = [] := rfl

theorem encode_cons (c : Char) (text : Str) :
    encode (c :: text) = String.utf8EncodeChar c ++ encode text := rfl

theorem encode_append (s t : Str) : encode (s ++ t) = encode s ++ encode t := List.flatMap_append

theorem toNat_ofNat {n : ℕ} (h : n < 256) : (UInt8.ofNat n).toNat = n := by
  simp [Nat.mod_eq_of_lt h]

theorem decodeFrom_cons (state : Option Pending) (n : ℕ) (h : n < 256) (rest : Bytes) :
    decodeFrom state (UInt8.ofNat n :: rest) =
      (step state n).1 ++ decodeFrom (step state n).2 rest := by
  rw [decodeFrom, toNat_ofNat h]

theorem step_continue {needed lower upper codePoint b : ℕ} (h : lower ≤ b ∧ b ≤ upper)
    (hn : needed ≠ 1) : step (some ⟨needed, lower, upper, codePoint⟩) b =
      ([], some ⟨needed - 1, 0x80, 0xbf, codePoint * 64 + (b - 0x80)⟩) := by
  simp only [step, if_pos h, if_neg hn]

theorem step_last {lower upper codePoint b : ℕ} (h : lower ≤ b ∧ b ≤ upper) :
    step (some ⟨1, lower, upper, codePoint⟩) b
      = ([Char.ofNat (codePoint * 64 + (b - 0x80))], none) := by
  simp only [step, if_pos h, if_true]

theorem decodeFrom_encodeChar (c : Char) (rest : Bytes) :
    decodeFrom none (String.utf8EncodeChar c ++ rest) = c :: decodeFrom none rest := by
  have hc : Char.ofNat c.val.toNat = c := Char.ofNat_toNat c
  have hvalid : c.val.toNat < 0xd800 ∨ 0xdfff < c.val.toNat ∧ c.val.toNat < 0x110000 := c.valid
  unfold String.utf8EncodeChar
  generalize c.val.toNat = v at hc hvalid
  dsimp only
  split_ifs with h1 h2 h3
  · -- one byte
    rw [List.singleton_append, decodeFrom_cons none v (by omega)]
    simp only [step, stepInitial, if_pos h1, hc, List.singleton_append]
  · -- two bytes
    have hfirst : step none (v / 64 % 32 + 0xc0) = ([], some ⟨1, 0x80, 0xbf, v / 64⟩) := by
      have he : v / 64 % 32 + 0xc0 - 0xc0 = v / 64 := by omega
      rw [step, stepInitial, if_neg (by omega), if_pos (by omega), he]
    have hlast : v / 64 * 64 + (v % 64 + 0x80 - 0x80) = v := by omega
    simp only [List.cons_append, List.nil_append]
    rw [decodeFrom_cons none _ (by omega), hfirst, decodeFrom_cons _ _ (by omega),
      step_last (by omega), hlast, hc]
    rfl
  · -- three bytes
    have hfirst : step none (v / 4096 % 16 + 0xe0) = ([], some ⟨2,
        if v / 4096 = 0 then 0xa0 else 0x80, if v / 4096 = 13 then 0x9f else 0xbf, v / 4096⟩) := by
      have he : v / 4096 % 16 + 0xe0 - 0xe0 = v / 4096 := by omega
      have hlow : (v / 4096 % 16 + 0xe0 = 0xe0) = (v / 4096 = 0) := by
        apply propext
        omega
      have hhigh : (v / 4096 % 16 + 0xe0 = 0xed) = (v / 4096 = 13) := by
        apply propext
        omega
      rw [step, stepInitial, if_neg (by omega), if_neg (by omega), if_pos (by omega), he]
      simp only [hlow, hhigh]
    have hlast : (v / 4096 * 64 + (v / 64 % 64 + 0x80 - 0x80)) * 64 + (v % 64 + 0x80 - 0x80) = v := by
      omega
    simp only [List.cons_append, List.nil_append]
    rw [decodeFrom_cons none _ (by omega), hfirst, decodeFrom_cons _ _ (by omega),
      step_continue (by split_ifs <;> omega) (by decide), decodeFrom_cons _ _ (by omega),
      step_last (by omega), hlast, hc]
    rfl
  · -- four bytes
    have hfirst : step none (v / 262144 % 8 + 0xf0) = ([], some ⟨3,
        if v / 262144 = 0 then 0x90 else 0x80, if v / 262144 = 4 then 0x8f else 0xbf,
        v / 262144⟩) := by
      have he : v / 262144 % 8 + 0xf0 - 0xf0 = v / 262144 := by omega
      have hlow : (v / 262144 % 8 + 0xf0 = 0xf0) = (v / 262144 = 0) := by
        apply propext
        omega
      have hhigh : (v / 262144 % 8 + 0xf0 = 0xf4) = (v / 262144 = 4) := by
        apply propext
        omega
      rw [step, stepInitial, if_neg (by omega), if_neg (by omega), if_neg (by omega),
        if_pos (by omega), he]
      simp only [hlow, hhigh]
    have hlast : ((v / 262144 * 64 + (v / 4096 % 64 + 0x80 - 0x80)) * 64
        + (v / 64 % 64 + 0x80 - 0x80)) * 64 + (v % 64 + 0x80 - 0x80) = v := by omega
    simp only [List.cons_append, List.nil_append]
    rw [decodeFrom_cons none _ (by omega), hfirst, decodeFrom_cons _ _ (by omega),
      step_continue (by split_ifs <;> omega) (by decide), decodeFrom_cons _ _ (by omega),
      step_continue (by omega) (by decide), decodeFrom_cons _ _ (by omega),
      step_last (by omega), hlast, hc]
    rfl

theorem decodeFrom_encode (text : Str) : decodeFrom none (encode text) = text := by
  induction text with
  | nil => rfl
  | cons c text ih => rw [encode_cons, decodeFrom_encodeChar, ih]

theorem decode?_encode (text : Str) : decode? (encode text) = some text := by
  rw [decode?, decodeFrom_encode, if_pos rfl]

theorem encode_inj {s t : Str} (h : encode s = encode t) : s = t := by
  rw [← decodeFrom_encode s, h, decodeFrom_encode]

theorem stripMark_encode {text : Str} (h : text.head? ≠ some '\ufeff') :
    stripMark (encode text) = encode text := by
  unfold stripMark
  split
  · rename_i rest hmark
    exfalso
    have hdecoded := decodeFrom_encode text
    rw [hmark, show 0xef :: 0xbb :: 0xbf :: rest = String.utf8EncodeChar '\ufeff' ++ rest from rfl,
      decodeFrom_encodeChar] at hdecoded
    rw [← hdecoded] at h
    exact h rfl
  · rfl

theorem decode_encode {text : Str} (h : text.head? ≠ some '\ufeff') : decode (encode text) = text := by
  rw [decode, stripMark_encode h, decodeFrom_encode]

end JsrProxy.Utf8
