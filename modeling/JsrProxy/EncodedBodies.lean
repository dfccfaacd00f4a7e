import JsrProxy.PublishedFiles

set_option autoImplicit false

/-!
# Encoded bodies

The canonical padded form of Base64 texts: a byte string has one, which the
materializer writes and the publication reads back.
-/
namespace JsrProxy

namespace Base64

/-- Digits and at most two padding characters that close the last quantum, with zeros for
    the bits that the padding leaves over. -/
def Canonical (text : Str) : Prop :=
  ∃ (values : List ℕ) (pad : ℕ), (∀ n ∈ values, n < 64) ∧ pad ≤ 2 ∧ (values.length + pad) % 4 = 0 ∧
    (∀ last ∈ values.getLast?, last % 4 ^ pad = 0) ∧ text = values.map digit ++ List.replicate pad '='

theorem length_sextets (bytes : Bytes) : (sextets bytes).length + (padding bytes).length = 4 * ((bytes.length + 2) / 3) := by
  induction bytes using sextets.induct with
  | case1 => rfl
  | case2 a => simp only [sextets, padding, List.length_cons, List.length_nil]
  | case3 a b => simp only [sextets, padding, List.length_cons, List.length_nil]
  | case4 a b c rest ih =>
    simp only [sextets, padding, List.length_cons]
    omega

theorem length_encode (bytes : Bytes) : (encode bytes).length = 4 * ((bytes.length + 2) / 3) := by
  rw [encode, List.length_append, List.length_map, length_sextets]

theorem padding_eq (bytes : Bytes) : padding bytes = List.replicate (padding bytes).length '=' := by
  rcases (length_padding bytes).2 with he | he | he <;> rw [he] <;> rfl

theorem padding_of_empty {bytes : Bytes} (h : sextets bytes = []) : padding bytes = [] := by
  have hlength := length_sextets bytes
  rw [h] at hlength
  rcases (length_padding bytes).2 with he | he | he
  · exact he
  · rw [he] at hlength
    simp at hlength
    omega
  · rw [he] at hlength
    simp at hlength
    omega

theorem getLast?_quantum (a b c d : ℕ) (rest : List ℕ) :
    (a :: b :: c :: d :: rest).getLast? = some (rest.getLast?.getD d) := by
  simp only [List.getLast?_cons, Option.getD_some]

theorem sextets_last (bytes : Bytes) :
    ∀ last ∈ (sextets bytes).getLast?, last % 4 ^ (padding bytes).length = 0 := by
  induction bytes using sextets.induct with
  | case1 => exact fun last hlast => by cases hlast
  | case2 a =>
    intro last hlast
    rw [← Option.some.inj hlast]
    exact Nat.mul_mod_left _ _
  | case3 a b =>
    intro last hlast
    rw [← Option.some.inj hlast]
    exact Nat.mul_mod_left _ _
  | case4 a b c rest ih =>
    intro last hlast
    rw [sextets, getLast?_quantum] at hlast
    rw [padding]
    cases hrest : (sextets rest).getLast? with
    | none =>
      rw [padding_of_empty (List.getLast?_eq_none_iff.1 hrest)]
      exact Nat.mod_one _
    | some x =>
      rw [hrest] at hlast
      exact ih last (hrest.trans hlast)

theorem canonical_encode (bytes : Bytes) : Canonical (encode bytes) := by
  obtain ⟨hmod, hpad⟩ := length_padding bytes
  have hle : (padding bytes).length ≤ 2 := by
    rcases hpad with he | he | he <;> rw [he] <;> decide
  refine ⟨sextets bytes, (padding bytes).length, sextets_lt bytes, hle, by omega, sextets_last bytes, ?_⟩
  rw [encode, ← padding_eq]

theorem sextets_bytesOf {values : List ℕ} {pad : ℕ} (hlt : ∀ n ∈ values, n < 64) (hpad : pad ≤ 2)
    (hlength : (values.length + pad) % 4 = 0) (hlast : ∀ last ∈ values.getLast?, last % 4 ^ pad = 0) :
    sextets (bytesOf values) = values ∧ padding (bytesOf values) = List.replicate pad '=' := by
  have hof : ∀ n < 256, (UInt8.ofNat n).toNat = n := fun n hn => UInt8.toNat_ofNat_of_lt' hn
  induction values using bytesOf.induct with
  | case1 a b c d rest ih =>
    have ha := hlt a (by simp)
    have hb := hlt b (by simp)
    have hc := hlt c (by simp)
    have hd := hlt d (by simp)
    have hrestLast : ∀ last ∈ rest.getLast?, last % 4 ^ pad = 0 := by
      intro last hmem
      rw [getLast?_quantum, hmem] at hlast
      exact hlast last rfl
    have hrestLength : (rest.length + pad) % 4 = 0 := by
      simp only [List.length_cons] at hlength
      omega
    obtain ⟨hsextets, hpadding⟩ := ih (fun n hn => hlt n (by simp [hn])) hrestLength hrestLast
    rw [bytesOf, sextets, padding, hsextets, hof _ (by omega), hof _ (by omega), hof _ (by omega)]
    refine ⟨?_, hpadding⟩
    have h1 : (a * 4 + b / 16) / 4 = a := by omega
    have h2 : (a * 4 + b / 16) % 4 * 16 + (b % 16 * 16 + c / 4) / 16 = b := by omega
    have h3 : (b % 16 * 16 + c / 4) % 16 * 4 + (c % 4 * 64 + d) / 64 = c := by omega
    have h4 : (c % 4 * 64 + d) % 64 = d := by omega
    rw [h1, h2, h3, h4]
  | case2 a b c =>
    have ha := hlt a (by simp)
    have hb := hlt b (by simp)
    have hc := hlt c (by simp)
    have hone : pad = 1 := by
      simp only [List.length_cons, List.length_nil] at hlength
      omega
    subst hone
    have hzeros : c % 4 = 0 := hlast c rfl
    rw [bytesOf, sextets, padding, hof _ (by omega), hof _ (by omega)]
    refine ⟨?_, rfl⟩
    have h1 : (a * 4 + b / 16) / 4 = a := by omega
    have h2 : (a * 4 + b / 16) % 4 * 16 + (b % 16 * 16 + c / 4) / 16 = b := by omega
    have h3 : (b % 16 * 16 + c / 4) % 16 * 4 = c := by omega
    rw [h1, h2, h3]
  | case3 a b =>
    have ha := hlt a (by simp)
    have hb := hlt b (by simp)
    have htwo : pad = 2 := by
      simp only [List.length_cons, List.length_nil] at hlength
      omega
    subst htwo
    have hzeros : b % 16 = 0 := hlast b rfl
    rw [bytesOf, sextets, padding, hof _ (by omega)]
    refine ⟨?_, rfl⟩
    have h1 : (a * 4 + b / 16) / 4 = a := by omega
    have h2 : (a * 4 + b / 16) % 4 * 16 = b := by omega
    rw [h1, h2]
  | case4 values hfour hthree htwo =>
    rcases values with _ | ⟨a, _ | ⟨b, _ | ⟨c, _ | ⟨d, rest⟩⟩⟩⟩
    · have hnone : pad = 0 := by
        rw [List.length_nil] at hlength
        omega
      rw [hnone]
      exact ⟨rfl, rfl⟩
    · rw [List.length_singleton] at hlength
      omega
    · exact absurd rfl (htwo a b)
    · exact absurd rfl (hthree a b c)
    · exact absurd rfl (hfour a b c d rest)

theorem Canonical.eq_encode {text : Str} (h : Canonical text) : ∃ bytes, text = encode bytes := by
  obtain ⟨values, pad, hlt, hpad, hlength, hlast, rfl⟩ := h
  obtain ⟨hvalues, hpadding⟩ := sextets_bytesOf hlt hpad hlength hlast
  exact ⟨bytesOf values, by rw [encode, hvalues, hpadding]⟩

/-- The encoding is the one canonical text that decodes to the bytes. -/
theorem canonical_iff {text : Str} {bytes : Bytes} :
    Canonical text ∧ decode text = some bytes ↔ text = encode bytes := by
  constructor
  · rintro ⟨hcanonical, hdecode⟩
    obtain ⟨other, rfl⟩ := hcanonical.eq_encode
    rw [decode_encode, Option.some.injEq] at hdecode
    rw [hdecode]
  · rintro rfl
    exact ⟨canonical_encode bytes, decode_encode bytes⟩

end Base64

namespace Service

/-- A body decodes to the bytes that were encoded; it is their canonical text, and as long
    as its padding makes it, so that no other bytes have it. -/
theorem base64Encode_canonical (bytes : Bytes) :
    Base64.decode (base64Encode bytes) = some bytes ∧
      (base64Encode bytes).length = 4 * ((bytes.length + 2) / 3) ∧
      (∀ text, Base64.Canonical text ∧ Base64.decode text = some bytes ↔ text = base64Encode bytes) ∧
      ∀ other, base64Encode other = base64Encode bytes → other = bytes := by
  rw [base64Encode_eq]
  refine ⟨Base64.decode_encode bytes, Base64.length_encode bytes, fun text => Base64.canonical_iff, ?_⟩
  intro other hsame
  have hdecode := Base64.decode_encode other
  rw [← base64Encode_eq, hsame, Base64.decode_encode, Option.some.injEq] at hdecode
  exact hdecode.symm

end Service
end JsrProxy
