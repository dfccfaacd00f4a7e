import JsrProxy.Segments
import JsrProxy.UrlPaths

set_option autoImplicit false

/-!
# Parsed paths

A parsed path consists of segments that the parser keeps as they are, so parsing it
again, or a path made of such segments, changes nothing.
-/
namespace JsrProxy.UrlPath

structure ParsedSegment (segment : Str) : Prop where
  plain : ∀ c ∈ segment, isPlain c = true ∧ inPathSet c = false
  notSingleDot : isSingleDot segment = false
  notDoubleDot : isDoubleDot segment = false

theorem parsedSegment_nil : ParsedSegment [] where
  plain := fun _ hc => absurd hc List.not_mem_nil
  notSingleDot := by decide
  notDoubleDot := by decide

theorem ParsedSegment.encode {segment : Str} (h : ParsedSegment segment) :
    percentEncode inPathSet segment = segment :=
  percentEncode_eq_self fun c hc => (h.plain c hc).2

theorem ParsedSegment.noSlash {segment : Str} (h : ParsedSegment segment) : '/' ∉ segment := by
  intro hc
  exact (isPlain_iff.1 (h.plain '/' hc).1).2.1 rfl

theorem percentByte_plain (b : UInt8) :
    ∀ c ∈ percentByte b, isPlain c = true ∧ inPathSet c = false := by
  have hb := b.toNat_lt
  have hdigit : ∀ n < 16, isPlain (upperHex n) = true ∧ inPathSet (upperHex n) = false := by decide
  intro c hc
  simp only [percentByte, List.mem_cons, List.not_mem_nil, or_false] at hc
  rcases hc with rfl | rfl | rfl
  · decide
  · exact hdigit _ (by omega)
  · exact hdigit _ (by omega)

theorem isPlain_of_unencoded {c : Char} (h : inPathSet c = false) (hslash : c ≠ '/')
    (hback : c ≠ '\\') : isPlain c = true := by
  rw [inPathSet, Bool.or_eq_false_iff, inControlSet, Bool.or_eq_false_iff] at h
  obtain ⟨⟨hlow, -⟩, hmem⟩ := h
  have hne : ∀ d ∈ " \"#<>?^`\x7b\x7d".toList, c ≠ d := by
    rintro d hd rfl
    exact absurd (decide_eq_false_iff_not.1 hmem) (not_not_intro hd)
  have hspace : c.toNat ≠ 0x20 := by
    intro he
    apply hne ' ' (by decide)
    rw [← Char.ofNat_toNat c, he]
  rw [decide_eq_false_iff_not] at hlow
  exact isPlain_iff.2 ⟨by omega, hslash, hback, hne '?' (by decide), hne '#' (by decide)⟩

theorem percentEncode_plain {segment : Str} (h : ∀ c ∈ segment, c ≠ '/' ∧ c ≠ '\\') :
    ∀ c ∈ percentEncode inPathSet segment, isPlain c = true ∧ inPathSet c = false := by
  intro c hc
  obtain ⟨d, hd, hcd⟩ := List.mem_flatMap.1 hc
  cases hset : inPathSet d with
  | true =>
    rw [if_pos hset] at hcd
    obtain ⟨b, -, hcb⟩ := List.mem_flatMap.1 hcd
    exact percentByte_plain b c hcb
  | false =>
    rw [if_neg (by rw [hset]; exact Bool.false_ne_true), List.mem_singleton] at hcd
    rw [hcd]
    exact ⟨isPlain_of_unencoded hset (h d hd).1 (h d hd).2, hset⟩

theorem pushSegment_parsed {path : List Str} (hpath : ∀ s ∈ path, ParsedSegment s) {segment : Str}
    (h : ∀ c ∈ segment, isPlain c = true ∧ inPathSet c = false) (isLast : Bool) :
    ∀ s ∈ pushSegment path isLast segment, ParsedSegment s := by
  have hempty : ∀ {front : List Str}, (∀ s ∈ front, ParsedSegment s) →
      ∀ s ∈ front ++ [[]], ParsedSegment s := by
    intro front hfront s hs
    rcases List.mem_append.1 hs with hs | hs
    · exact hfront s hs
    · rw [List.mem_singleton.1 hs]
      exact parsedSegment_nil
  have hfront : ∀ s ∈ path.dropLast, ParsedSegment s := fun s hs =>
    hpath s (List.mem_of_mem_dropLast hs)
  unfold pushSegment
  split_ifs with hdouble hlast hsingle hlast
  · exact hempty hfront
  · exact hfront
  · exact hempty hpath
  · exact hpath
  · intro s hs
    rcases List.mem_append.1 hs with hs | hs
    · exact hpath s hs
    · rw [List.mem_singleton.1 hs]
      exact ⟨h, Bool.eq_false_of_not_eq_true hsingle, Bool.eq_false_of_not_eq_true hdouble⟩

theorem pushSegments_parsed {segments : List Str}
    (h : ∀ s ∈ segments, ∀ c ∈ s, isPlain c = true ∧ inPathSet c = false) {path : List Str}
    (hpath : ∀ s ∈ path, ParsedSegment s) : ∀ s ∈ pushSegments path segments, ParsedSegment s := by
  induction segments generalizing path with
  | nil => exact hpath
  | cons segment rest ih =>
    have hpushed := pushSegment_parsed hpath (h segment List.mem_cons_self)
    cases rest with
    | nil => exact hpushed true
    | cons next rest => exact ih (fun s hs => h s (List.mem_cons_of_mem _ hs)) (hpushed false)

theorem pushSegment_last_ne (path : List Str) (segment : Str) : pushSegment path true segment ≠ [] := by
  unfold pushSegment
  rw [if_pos rfl, if_pos rfl]
  split_ifs <;> simp

theorem pushSegments_ne {segments : List Str} (h : segments ≠ []) (path : List Str) :
    pushSegments path segments ≠ [] := by
  induction segments generalizing path with
  | nil => exact absurd rfl h
  | cons segment rest ih =>
    cases rest with
    | nil => exact pushSegment_last_ne path segment
    | cons next rest => exact ih (List.cons_ne_nil _ _) _

theorem pathname_parsed (input : Str) : ∃ segments, segments ≠ [] ∧
    (∀ s ∈ segments, ParsedSegment s) ∧ pathname input = segments.flatMap ('/' :: ·) := by
  refine ⟨_, pushSegments_ne ?_ _, pushSegments_parsed ?_ ?_, rfl⟩
  · simp
  · intro s hs
    obtain ⟨raw, hraw, rfl⟩ := List.mem_map.1 hs
    apply percentEncode_plain
    intro c hc
    have hslash : c ≠ '/' := by
      rintro rfl
      exact Segments.not_mem_of_mem_splitOn hraw hc
    refine ⟨hslash, ?_⟩
    rintro rfl
    have hpart := List.mem_of_mem_drop (Segments.mem_of_mem_splitOn hraw hc)
    obtain ⟨d, -, hd⟩ := List.mem_map.1 hpart
    split_ifs at hd with hback
    · cases hd
    · exact hback hd
  · exact fun s hs => absurd hs List.not_mem_nil

theorem pathname_of_parsed {segments : List Str} (hne : segments ≠ [])
    (h : ∀ s ∈ segments, ParsedSegment s) :
    pathname (segments.flatMap ('/' :: ·)) = segments.flatMap ('/' :: ·) := by
  have hplain : ∀ s ∈ segments, PlainSegment s := by
    intro s hs
    refine ⟨fun c hc => ((h s hs).plain c hc).1, ?_, ?_⟩
    · rw [(h s hs).encode]
      exact (h s hs).notSingleDot
    · rw [(h s hs).encode]
      exact (h s hs).notDoubleDot
  have hencode : ∀ s ∈ segments, '/' :: percentEncode inPathSet s = '/' :: s := by
    intro s hs
    rw [(h s hs).encode]
  rw [pathname_plain hne hplain]
  exact List.flatMap_congr hencode

theorem splitOn_parsed {segments : List Str} (hne : segments ≠ [])
    (h : ∀ s ∈ segments, ParsedSegment s) :
    (segments.flatMap ('/' :: ·)).splitOn '/' = [] :: segments := by
  rw [flatMap_slash hne, Segments.splitOn_cons_self, List.splitOn_intercalate]
  · exact fun s hs => (h s hs).noSlash
  · exact hne

end JsrProxy.UrlPath
