import JsrProxy.Text

set_option autoImplicit false

/-!
# Base64

The padded encoding over the standard alphabet, and the forgiving decoder, which
skips white space, takes up to two padding characters off a whole number of
quanta and drops the bits that fill no byte.
-/
namespace JsrProxy.Base64

def alphabet : Str := "ABCDEFGHIJKLMNOPQRSTUVWXYZabcdefghijklmnopqrstuvwxyz0123456789+/".toList

def digit (n : ℕ) : Char := alphabet.getD n '='

def digitValue (c : Char) : Option ℕ := alphabet.findIdx? (· = c)

def sextets : Bytes → List ℕ
  | [] => []
  | [a] => [a.toNat / 4, a.toNat % 4 * 16]
  | [a, b] => [a.toNat / 4, a.toNat % 4 * 16 + b.toNat / 16, b.toNat % 16 * 4]
  | a :: b :: c :: rest =>
    a.toNat / 4 :: (a.toNat % 4 * 16 + b.toNat / 16) :: (b.toNat % 16 * 4 + c.toNat / 64) ::
      c.toNat % 64 :: sextets rest

def padding : Bytes → Str
  | [] => []
  | [_] => ['=', '=']
  | [_, _] => ['=']
  | _ :: _ :: _ :: rest => padding rest

def encode (bytes : Bytes) : Str := (sextets bytes).map digit ++ padding bytes

def bytesOf : List ℕ → Bytes
  | a :: b :: c :: d :: rest =>
    UInt8.ofNat (a * 4 + b / 16) :: UInt8.ofNat (b % 16 * 16 + c / 4) ::
      UInt8.ofNat (c % 4 * 64 + d) :: bytesOf rest
  | [a, b, c] => [UInt8.ofNat (a * 4 + b / 16), UInt8.ofNat (b % 16 * 16 + c / 4)]
  | [a, b] => [UInt8.ofNat (a * 4 + b / 16)]
  | _ => []

def isSpace (c : Char) : Bool := c ∈ ['\t', '\n', '\x0c', '\r', ' ']

def unpadded (text : Str) : Str :=
  if text.length % 4 = 0 then
    match text.reverse with
    | '=' :: '=' :: rest => rest.reverse
    | '=' :: rest => rest.reverse
    | _ => text
  else text

def decode (text : Str) : Option Bytes :=
  let body := unpadded (text.filter fun c => !isSpace c)
  if body.length % 4 = 1 then none
  else (body.mapM digitValue).map bytesOf

theorem sextets_lt (bytes : Bytes) : ∀ n ∈ sextets bytes, n < 64 := by
  induction bytes using sextets.induct with
  | case1 => simp [sextets]
  | case2 a =>
    have ha := a.toNat_lt
    intro n hn
    simp only [sextets, List.mem_cons, List.not_mem_nil, or_false] at hn
    omega
  | case3 a b =>
    have ha := a.toNat_lt
    have hb := b.toNat_lt
    intro n hn
    simp only [sextets, List.mem_cons, List.not_mem_nil, or_false] at hn
    omega
  | case4 a b c rest ih =>
    have ha := a.toNat_lt
    have hb := b.toNat_lt
    have hc := c.toNat_lt
    intro n hn
    simp only [sextets, List.mem_cons] at hn
    rcases hn with rfl | rfl | rfl | rfl | hn
    · omega
    · omega
    · omega
    · omega
    · exact ih n hn

theorem bytesOf_sextets (bytes : Bytes) : bytesOf (sextets bytes) = bytes := by
  have hof : ∀ (x : UInt8) (n : ℕ), n = x.toNat → UInt8.ofNat n = x := by
    rintro x n rfl
    exact UInt8.ofNat_toNat
  induction bytes using sextets.induct with
  | case1 => rfl
  | case2 a =>
    have ha := a.toNat_lt
    simp only [sextets, bytesOf, hof a (a.toNat / 4 * 4 + a.toNat % 4 * 16 / 16) (by omega)]
  | case3 a b =>
    have ha := a.toNat_lt
    have hb := b.toNat_lt
    simp only [sextets, bytesOf]
    rw [hof a _ (by omega), hof b _ (by omega)]
  | case4 a b c rest ih =>
    have ha := a.toNat_lt
    have hb := b.toNat_lt
    have hc := c.toNat_lt
    simp only [sextets, bytesOf, ih]
    rw [hof a _ (by omega), hof b _ (by omega), hof c _ (by omega)]

theorem length_padding (bytes : Bytes) :
    (sextets bytes).length % 4 = (4 - (padding bytes).length) % 4 ∧
      (padding bytes = [] ∨ padding bytes = ['='] ∨ padding bytes = ['=', '=']) := by
  induction bytes using sextets.induct with
  | case1 => exact ⟨rfl, .inl rfl⟩
  | case2 a => exact ⟨rfl, .inr (.inr rfl)⟩
  | case3 a b => exact ⟨rfl, .inr (.inl rfl)⟩
  | case4 a b c rest ih =>
    obtain ⟨hlength, hpad⟩ := ih
    simp only [sextets, padding, List.length_cons]
    exact ⟨by omega, hpad⟩

theorem digitValue_digit : ∀ n < 64, digitValue (digit n) = some n := by decide +kernel

theorem digit_plain : ∀ n < 64, isSpace (digit n) = false ∧ digit n ≠ '=' := by decide +kernel

theorem unpadded_digits {front pad : Str} (hfront : ∀ c ∈ front, c ≠ '=')
    (hlength : front.length % 4 = (4 - pad.length) % 4)
    (hpad : pad = [] ∨ pad = ['='] ∨ pad = ['=', '=']) : unpadded (front ++ pad) = front := by
  have hlast : ∀ c rest, front.reverse = c :: rest → c ≠ '=' := by
    intro c rest he
    apply hfront
    rw [← List.mem_reverse, he]
    exact List.mem_cons_self
  unfold unpadded
  rcases hpad with rfl | rfl | rfl
  · rw [List.append_nil]
    split_ifs with hquanta
    · split
      · rename_i heq
        exact absurd rfl (hlast _ _ heq)
      · rename_i heq
        exact absurd rfl (hlast _ _ heq)
      · rfl
    · rfl
  · rw [if_pos (by simp at hlength ⊢; omega), List.reverse_append]
    simp only [List.reverse_singleton, List.singleton_append]
    split
    · rename_i heq
      exact absurd rfl (hlast _ _ (List.cons.inj heq).2)
    · rename_i heq
      rw [← (List.cons.inj heq).2, List.reverse_reverse]
    · rename_i hne
      exact absurd rfl (hne front.reverse)
  · rw [if_pos (by simp at hlength ⊢; omega), List.reverse_append]
    exact List.reverse_reverse front

/-- Decoding what was encoded gives back the bytes. -/
theorem decode_encode (bytes : Bytes) : decode (encode bytes) = some bytes := by
  obtain ⟨hlength, hpad⟩ := length_padding bytes
  have hfilter : (encode bytes).filter (fun c => !isSpace c) = encode bytes := by
    rw [List.filter_eq_self]
    intro c hc
    rcases List.mem_append.1 hc with hc | hc
    · obtain ⟨n, hn, rfl⟩ := List.mem_map.1 hc
      rw [(digit_plain n (sextets_lt bytes n hn)).1]
      rfl
    · rcases hpad with he | he | he <;> rw [he] at hc <;> simp at hc <;> rw [hc] <;> rfl
  have hbody : unpadded (encode bytes) = (sextets bytes).map digit := by
    apply unpadded_digits _ (by rw [List.length_map]; exact hlength) hpad
    intro c hc
    obtain ⟨n, hn, rfl⟩ := List.mem_map.1 hc
    exact (digit_plain n (sextets_lt bytes n hn)).2
  have hmod : ¬ ((sextets bytes).map digit).length % 4 = 1 := by
    rw [List.length_map, hlength]
    rcases hpad with he | he | he <;> rw [he] <;> decide
  have hvalues : ((sextets bytes).map digit).mapM digitValue = some (sextets bytes) := by
    rw [List.mapM_map]
    have hall : ∀ l : List ℕ, (∀ n ∈ l, n < 64) → l.mapM (digitValue ∘ digit) = some l := by
      intro l hl
      induction l with
      | nil => rfl
      | cons n l ih =>
        rw [List.mapM_cons, ih (fun m hm => hl m (List.mem_cons_of_mem _ hm)), Function.comp_apply,
          digitValue_digit n (hl n List.mem_cons_self)]
        rfl
    exact hall _ (sextets_lt bytes)
  simp only [decode, hfilter, hbody, if_neg hmod, hvalues, Option.map_some, bytesOf_sextets]

end JsrProxy.Base64
