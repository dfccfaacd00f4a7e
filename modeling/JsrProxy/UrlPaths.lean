import JsrProxy.Segments
import JsrProxy.Utf8

set_option autoImplicit false

/-!
# URL paths

What the URL standard makes of the text after the host of an `http` or `https`
URL, and `decodeURIComponent`, which undoes the percent-encoding.
-/
namespace JsrProxy.UrlPath

def upperHex (n : ℕ) : Char := (Nat.digitChar n).toUpper

def percentByte (b : UInt8) : Str := ['%', upperHex (b.toNat / 16), upperHex (b.toNat % 16)]

def percentEncode (set : Char → Bool) (text : Str) : Str :=
  text.flatMap fun c => if set c then (Utf8.encode [c]).flatMap percentByte else [c]

def inControlSet (c : Char) : Bool := c.toNat ≤ 0x1f || 0x7e < c.toNat

def inQuerySet (c : Char) : Bool := inControlSet c || c ∈ " \"#<>'".toList

def inPathSet (c : Char) : Bool := inControlSet c || c ∈ " \"#<>?^`{}".toList

/-- What `encodeURIComponent` encodes. -/
def inComponentSet (c : Char) : Bool := !(c.isAlphanum || c ∈ "-_.!~*'()".toList)

def encodeURIComponent (text : Str) : Str := percentEncode inComponentSet text

def hexDigitValue (c : Char) : Option ℕ :=
  if '0' ≤ c ∧ c ≤ '9' then some (c.toNat - '0'.toNat)
  else if 'a' ≤ c ∧ c ≤ 'f' then some (c.toNat - 'a'.toNat + 10)
  else if 'A' ≤ c ∧ c ≤ 'F' then some (c.toNat - 'A'.toNat + 10)
  else none

def isSingleDot (segment : Str) : Bool :=
  segment.map Char.toLower ∈ [".".toList, "%2e".toList]

def isDoubleDot (segment : Str) : Bool :=
  segment.map Char.toLower ∈ ["..".toList, ".%2e".toList, "%2e.".toList, "%2e%2e".toList]

def pushSegment (path : List Str) (isLast : Bool) (segment : Str) : List Str :=
  if isDoubleDot segment then
    if isLast then path.dropLast ++ [[]] else path.dropLast
  else if isSingleDot segment then
    if isLast then path ++ [[]] else path
  else path ++ [segment]

def pushSegments (path : List Str) : List Str → List Str
  | [] => path
  | [segment] => pushSegment path true segment
  | segment :: rest => pushSegments (pushSegment path false segment) rest

/-- The parser drops tabs and newlines, and controls and spaces at the end. -/
def cleaned (input : Str) : Str :=
  (input.rdropWhile fun c => c.toNat ≤ 0x20).filter fun c => c ∉ ['\t', '\n', '\r']

/-- The path of a cleaned input, before its query and fragment. Both slashes separate. -/
def pathPart (input : Str) : Str :=
  ((cleaned input).takeWhile fun c => c ≠ '?' && c ≠ '#').map fun c => if c = '\\' then '/' else c

/-- `URL.pathname` for the input after the host, which starts with a slash. -/
def pathname (input : Str) : Str :=
  (pushSegments [] (((pathPart input).drop 1).splitOn '/' |>.map (percentEncode inPathSet))).flatMap
    ('/' :: ·)

/-- `URL.search`, which is empty for an empty query. -/
def search (input : Str) : Str :=
  match (cleaned input).dropWhile fun c => c ≠ '?' && c ≠ '#' with
  | '?' :: rest =>
    if (rest.takeWhile (· ≠ '#')).isEmpty then []
    else '?' :: percentEncode inQuerySet (rest.takeWhile (· ≠ '#'))
  | _ => []

inductive Token
  | char (c : Char)
  | octet (b : UInt8)

/-- Percent signs must be followed by two hexadecimal digits. -/
def tokens : Str → Option (List Token)
  | [] => some []
  | '%' :: a :: b :: rest =>
    match hexDigitValue a, hexDigitValue b, tokens rest with
    | some a, some b, some rest => some (.octet (UInt8.ofNat (a * 16 + b)) :: rest)
    | _, _, _ => none
  | c :: rest => if c = '%' then none else (tokens rest).map (.char c :: ·)

def octetCount (b : ℕ) : ℕ :=
  if b < 0x80 then 1 else if b < 0xc0 then 0 else if b < 0xe0 then 2 else if b < 0xf0 then 3
  else if b < 0xf8 then 4 else 0

def joinDecoded (octets : Bytes) (rest : Option Str) : Option Str :=
  match Utf8.decode? octets, rest with
  | some text, some rest => some (text ++ rest)
  | _, _ => none

def ofTokens : List Token → Option Str
  | [] => some []
  | .char c :: rest => (ofTokens rest).map (c :: ·)
  | .octet a :: rest =>
    match octetCount a.toNat, rest with
    | 1, rest => joinDecoded [a] (ofTokens rest)
    | 2, .octet b :: rest => joinDecoded [a, b] (ofTokens rest)
    | 3, .octet b :: .octet c :: rest => joinDecoded [a, b, c] (ofTokens rest)
    | 4, .octet b :: .octet c :: .octet d :: rest => joinDecoded [a, b, c, d] (ofTokens rest)
    | _, _ => none

/-- `decodeURIComponent`, which throws where this is `none`. -/
def decodeURIComponent (text : Str) : Option Str := (tokens text).bind ofTokens

def tokenOf (set : Char → Bool) (c : Char) : List Token :=
  if set c then (String.utf8EncodeChar c).map .octet else [.char c]

theorem hexDigitValue_upperHex : ∀ n < 16, hexDigitValue (upperHex n) = some n := by decide

theorem tokens_percentByte (b : UInt8) (rest : Str) :
    tokens (percentByte b ++ rest) = (tokens rest).map (.octet b :: ·) := by
  have hb := b.toNat_lt
  have hjoin : UInt8.ofNat (b.toNat / 16 * 16 + b.toNat % 16) = b := by
    rw [show b.toNat / 16 * 16 + b.toNat % 16 = b.toNat from by omega]
    exact UInt8.ofNat_toNat
  simp only [percentByte, List.cons_append, List.nil_append, tokens,
    hexDigitValue_upperHex _ (by omega : b.toNat / 16 < 16),
    hexDigitValue_upperHex _ (by omega : b.toNat % 16 < 16)]
  cases tokens rest with
  | none => rfl
  | some rest =>
    dsimp only
    rw [hjoin]
    rfl

theorem tokens_percentBytes (bytes : Bytes) (rest : Str) :
    tokens (bytes.flatMap percentByte ++ rest) = (tokens rest).map (bytes.map .octet ++ ·) := by
  induction bytes with
  | nil =>
    rw [List.flatMap_nil, List.nil_append, List.map_nil]
    cases tokens rest <;> rfl
  | cons b bytes ih =>
    rw [List.flatMap_cons, List.append_assoc, tokens_percentByte, ih]
    cases tokens rest <;> rfl

theorem tokens_plain {c : Char} (h : c ≠ '%') (rest : Str) :
    tokens (c :: rest) = (tokens rest).map (.char c :: ·) := by
  rw [tokens.eq_def]
  split
  · rename_i heq
    cases heq
  · rename_i heq
    exact absurd (List.cons.inj heq).1 h
  · rename_i heq
    obtain ⟨rfl, rfl⟩ := List.cons.inj heq
    rw [if_neg h]

theorem tokens_percentEncode (set : Char → Bool) {text : Str}
    (h : ∀ c ∈ text, c = '%' → set c = true) :
    tokens (percentEncode set text) = some (text.flatMap (tokenOf set)) := by
  induction text with
  | nil => rfl
  | cons c text ih =>
    have hrest := ih (fun d hd => h d (List.mem_cons_of_mem _ hd))
    rw [percentEncode, List.flatMap_cons, ← percentEncode, List.flatMap_cons]
    cases hc : set c with
    | true =>
      have hone : Utf8.encode [c] = String.utf8EncodeChar c := by
        rw [Utf8.encode_cons, Utf8.encode_nil, List.append_nil]
      rw [if_pos rfl, hone, tokens_percentBytes, hrest, tokenOf, if_pos hc]
      rfl
    | false =>
      have hne : c ≠ '%' := by
        intro he
        rw [h c List.mem_cons_self he] at hc
        cases hc
      rw [if_neg Bool.false_ne_true, List.singleton_append, tokens_plain hne, hrest, tokenOf, hc,
        if_neg Bool.false_ne_true]
      rfl

theorem decode?_char (c : Char) : Utf8.decode? (String.utf8EncodeChar c) = some [c] := by
  have hone : Utf8.encode [c] = String.utf8EncodeChar c := by
    rw [Utf8.encode_cons, Utf8.encode_nil, List.append_nil]
  rw [← hone, Utf8.decode?_encode]

theorem ofTokens_octets (c : Char) (rest : List Token) :
    ofTokens ((String.utf8EncodeChar c).map .octet ++ rest) = (ofTokens rest).map (c :: ·) := by
  have hvalid : c.val.toNat < 0xd800 ∨ 0xdfff < c.val.toNat ∧ c.val.toNat < 0x110000 := c.valid
  have hdecoded := decode?_char c
  have hjoin : joinDecoded (String.utf8EncodeChar c) (ofTokens rest)
      = (ofTokens rest).map (c :: ·) := by
    unfold joinDecoded
    rw [hdecoded]
    cases ofTokens rest <;> rfl
  rw [← hjoin]
  clear hdecoded hjoin
  unfold String.utf8EncodeChar
  generalize c.val.toNat = v at hvalid
  dsimp only
  split_ifs with h1 h2 h3
  · have hcount : octetCount (UInt8.ofNat v).toNat = 1 := by
      rw [Utf8.toNat_ofNat (by omega), octetCount, if_pos (by omega)]
    simp only [List.map_cons, List.map_nil, List.cons_append, List.nil_append, ofTokens, hcount]
  · have hcount : octetCount (UInt8.ofNat (v / 64 % 32 + 0xc0)).toNat = 2 := by
      rw [Utf8.toNat_ofNat (by omega), octetCount, if_neg (by omega), if_neg (by omega),
        if_pos (by omega)]
    simp only [List.map_cons, List.map_nil, List.cons_append, List.nil_append, ofTokens, hcount]
  · have hcount : octetCount (UInt8.ofNat (v / 4096 % 16 + 0xe0)).toNat = 3 := by
      rw [Utf8.toNat_ofNat (by omega), octetCount, if_neg (by omega), if_neg (by omega),
        if_neg (by omega), if_pos (by omega)]
    simp only [List.map_cons, List.map_nil, List.cons_append, List.nil_append, ofTokens, hcount]
  · have hcount : octetCount (UInt8.ofNat (v / 262144 % 8 + 0xf0)).toNat = 4 := by
      rw [Utf8.toNat_ofNat (by omega), octetCount, if_neg (by omega), if_neg (by omega),
        if_neg (by omega), if_neg (by omega), if_pos (by omega)]
    simp only [List.map_cons, List.map_nil, List.cons_append, List.nil_append, ofTokens, hcount]

/-- Percent-encoded text decodes to itself, provided its percent signs are encoded. -/
theorem decodeURIComponent_percentEncode (set : Char → Bool) {text : Str}
    (h : ∀ c ∈ text, c = '%' → set c = true) :
    decodeURIComponent (percentEncode set text) = some text := by
  rw [decodeURIComponent, tokens_percentEncode set h, Option.bind_some]
  clear h
  induction text with
  | nil => rfl
  | cons c text ih =>
    rw [List.flatMap_cons, tokenOf]
    split_ifs
    · rw [ofTokens_octets, ih]
      rfl
    · rw [List.singleton_append, ofTokens, ih]
      rfl

theorem percentEncode_eq_self {set : Char → Bool} {text : Str} (h : ∀ c ∈ text, set c = false) :
    percentEncode set text = text := by
  induction text with
  | nil => rfl
  | cons c text ih =>
    rw [percentEncode, List.flatMap_cons, ← percentEncode,
      ih (fun d hd => h d (List.mem_cons_of_mem _ hd)), h c List.mem_cons_self,
      if_neg Bool.false_ne_true, List.singleton_append]

theorem percentEncode_append (set : Char → Bool) (s t : Str) :
    percentEncode set (s ++ t) = percentEncode set s ++ percentEncode set t := List.flatMap_append

theorem percentEncode_intercalate {set : Char → Bool} (hslash : set '/' = false)
    (segments : List Str) : percentEncode set (['/'].intercalate segments)
      = ['/'].intercalate (segments.map (percentEncode set)) := by
  have hone : percentEncode set ['/'] = ['/'] := by
    apply percentEncode_eq_self
    intro c hc
    rw [List.mem_singleton.1 hc, hslash]
  induction segments with
  | nil => rfl
  | cons s rest ih =>
    cases rest with
    | nil => rw [List.intercalate_singleton, List.map_cons, List.map_nil, List.intercalate_singleton]
    | cons t rest =>
      have hmap : (s :: t :: rest).map (percentEncode set)
          = percentEncode set s :: (t :: rest).map (percentEncode set) := rfl
      have hne : (t :: rest).map (percentEncode set) ≠ [] := List.cons_ne_nil _ _
      rw [List.intercalate_cons_of_ne_nil (List.cons_ne_nil t rest), percentEncode_append,
        percentEncode_append, hone, ih, hmap, List.intercalate_cons_of_ne_nil hne]

theorem percent_mem_percentEncode {set : Char → Bool} {text : Str} {c : Char} (hc : c ∈ text)
    (hset : set c = true) : '%' ∈ percentEncode set text := by
  refine List.mem_flatMap.2 ⟨c, hc, ?_⟩
  have hne : Utf8.encode [c] ≠ [] := by
    intro h
    have hlength := Utf8.decode?_encode [c]
    rw [h] at hlength
    cases hlength
  obtain ⟨b, rest, hbytes⟩ := List.exists_cons_of_ne_nil hne
  rw [if_pos hset, hbytes]
  exact List.mem_cons_self

def isPlain (c : Char) : Bool := 0x20 < c.toNat && c ∉ "/\\?#".toList

/-- A segment of plain characters that is no dot segment, also in its encoded form. -/
structure PlainSegment (segment : Str) : Prop where
  plain : ∀ c ∈ segment, isPlain c = true
  notSingleDot : isSingleDot (percentEncode inPathSet segment) = false
  notDoubleDot : isDoubleDot (percentEncode inPathSet segment) = false

theorem isPlain_iff {c : Char} : isPlain c = true ↔
    0x20 < c.toNat ∧ c ≠ '/' ∧ c ≠ '\\' ∧ c ≠ '?' ∧ c ≠ '#' := by
  simp [isPlain]

theorem toLower_cases (c : Char) :
    c.toLower = c ∨ 65 ≤ c.toNat ∧ c.toLower.toNat = c.toNat + 32 := by
  unfold Char.toLower
  split_ifs with h
  · right
    obtain ⟨hlow, hhigh⟩ := h
    have hlow' : 65 ≤ c.val.toNat := hlow
    have hhigh' : c.val.toNat ≤ 90 := hhigh
    refine ⟨hlow', ?_⟩
    change (c.val + 32).toNat = c.val.toNat + 32
    rw [UInt32.toNat_add]
    change (c.val.toNat + 32) % 2 ^ 32 = _
    omega
  · exact .inl rfl

theorem eq_of_toLower {c d : Char} (h : c.toLower = d) (hd : d.toNat < 97) : c = d := by
  rcases toLower_cases c with hc | ⟨hupper, hc⟩
  · rw [← hc, h]
  · rw [h] at hc
    omega

theorem eq_of_toLower_e {c : Char} (h : c.toLower = 'e') : c = 'e' ∨ c = 'E' := by
  rcases toLower_cases c with hc | ⟨hupper, hc⟩
  · left
    rw [← hc, h]
  · right
    rw [h] at hc
    apply Char.toNat_inj.1
    have he : 'e'.toNat = 101 := rfl
    have hE : 'E'.toNat = 69 := rfl
    omega

theorem decodeURIComponent_dot {front : Str} (rest : Str)
    (h : front.map Char.toLower = ['.'] ∨ front.map Char.toLower = ['%', '2', 'e']) :
    decodeURIComponent (front ++ rest) = (decodeURIComponent rest).map ('.' :: ·) := by
  rcases h with h | h
  · obtain ⟨c, rfl, hc⟩ := List.map_eq_singleton_iff.1 h
    have hdot := eq_of_toLower hc (by decide)
    rw [hdot, List.singleton_append, decodeURIComponent, tokens_plain (by decide),
      decodeURIComponent]
    cases tokens rest <;> rfl
  · obtain ⟨percent, tail, rfl, hpercent, h⟩ := List.map_eq_cons_iff.1 h
    obtain ⟨two, tail, rfl, htwo, h⟩ := List.map_eq_cons_iff.1 h
    obtain ⟨e, rfl, he⟩ := List.map_eq_singleton_iff.1 h
    have hoctet : tokens (percent :: two :: e :: rest) = (tokens rest).map (.octet 0x2e :: ·) := by
      rw [eq_of_toLower hpercent (by decide), eq_of_toLower htwo (by decide)]
      have hpair : hexDigitValue '2' = some 2 ∧ hexDigitValue 'e' = some 14 ∧
          hexDigitValue 'E' = some 14 := by decide
      obtain ⟨htwo, hlower, hupper⟩ := hpair
      rcases eq_of_toLower_e he with rfl | rfl
      · simp only [tokens, htwo, hlower]
        cases tokens rest <;> rfl
      · simp only [tokens, htwo, hupper]
        cases tokens rest <;> rfl
    change (tokens (percent :: two :: e :: rest)).bind ofTokens = _
    rw [hoctet, decodeURIComponent]
    cases tokens rest with
    | none => rfl
    | some rest =>
      have hcount : octetCount (0x2e : UInt8).toNat = 1 := by decide
      have hdecoded : Utf8.decode? [0x2e] = some ['.'] := by decide
      simp only [Option.map_some, Option.bind_some, ofTokens, hcount, joinDecoded, hdecoded]
      cases ofTokens rest <;> rfl

theorem decodeURIComponent_nil : decodeURIComponent [] = some [] := rfl

theorem decode_singleDot {segment : Str} (h : isSingleDot segment = true) :
    decodeURIComponent segment = some ".".toList := by
  have hforms : segment.map Char.toLower = ".".toList ∨ segment.map Char.toLower = "%2e".toList := by
    simpa [isSingleDot] using h
  have hdot := decodeURIComponent_dot [] hforms
  rw [List.append_nil, decodeURIComponent_nil] at hdot
  exact hdot

theorem decode_doubleDot {segment : Str} (h : isDoubleDot segment = true) :
    decodeURIComponent segment = some "..".toList := by
  have hforms : ∃ first second : Str, segment.map Char.toLower = first ++ second ∧
      (first = ".".toList ∨ first = "%2e".toList) ∧ (second = ".".toList ∨ second = "%2e".toList) := by
    simp only [isDoubleDot, List.mem_cons, List.not_mem_nil, or_false, decide_eq_true_eq] at h
    rcases h with h | h | h | h
    · exact ⟨".".toList, ".".toList, h, .inl rfl, .inl rfl⟩
    · exact ⟨".".toList, "%2e".toList, h, .inl rfl, .inr rfl⟩
    · exact ⟨"%2e".toList, ".".toList, h, .inr rfl, .inl rfl⟩
    · exact ⟨"%2e".toList, "%2e".toList, h, .inr rfl, .inr rfl⟩
  obtain ⟨first, second, happend, hfirst, hsecond⟩ := hforms
  obtain ⟨front, rest, rfl, rfl, rfl⟩ := List.map_eq_append_iff.1 happend
  have hrest := decodeURIComponent_dot [] hsecond
  rw [List.append_nil, decodeURIComponent_nil] at hrest
  rw [decodeURIComponent_dot rest hfirst, hrest]
  rfl

theorem plainSegment {segment : Str} (hplain : ∀ c ∈ segment, isPlain c = true ∧ c ≠ '%')
    (hdot : segment ≠ ".".toList) (hdots : segment ≠ "..".toList) : PlainSegment segment := by
  have hdecode : decodeURIComponent (percentEncode inPathSet segment) = some segment := by
    apply decodeURIComponent_percentEncode
    intro c hc he
    exact absurd he (hplain c hc).2
  refine ⟨fun c hc => (hplain c hc).1, ?_, ?_⟩
  · rw [Bool.eq_false_iff]
    intro h
    rw [decode_singleDot h] at hdecode
    exact hdot (Option.some.inj hdecode).symm
  · rw [Bool.eq_false_iff]
    intro h
    rw [decode_doubleDot h] at hdecode
    exact hdots (Option.some.inj hdecode).symm

theorem slash_not_mem_percentEncode {set : Char → Bool} {text : Str} (h : '/' ∉ text) :
    '/' ∉ percentEncode set text := by
  intro hmem
  obtain ⟨c, hc, hslash⟩ := List.mem_flatMap.1 hmem
  have hhex : ∀ n < 16, upperHex n ≠ '/' := by decide
  split at hslash
  · obtain ⟨b, -, hb⟩ := List.mem_flatMap.1 hslash
    have hlt := b.toNat_lt
    simp only [percentByte, List.mem_cons, List.not_mem_nil, or_false] at hb
    rcases hb with hb | hb | hb
    · exact absurd hb (by decide)
    · exact hhex _ (by omega) hb.symm
    · exact hhex _ (by omega) hb.symm
  · rw [List.mem_singleton] at hslash
    rw [hslash] at h
    exact h hc

theorem pushSegment_plain {path : List Str} {segment : Str} (h : PlainSegment segment)
    (isLast : Bool) : pushSegment path isLast (percentEncode inPathSet segment) =
      path ++ [percentEncode inPathSet segment] := by
  rw [pushSegment, h.notDoubleDot, h.notSingleDot, if_neg Bool.false_ne_true,
    if_neg Bool.false_ne_true]

theorem pushSegments_plain (path : List Str) {segments : List Str} (h : ∀ s ∈ segments, PlainSegment s) :
    pushSegments path (segments.map (percentEncode inPathSet)) =
      path ++ segments.map (percentEncode inPathSet) := by
  induction segments generalizing path with
  | nil => rw [List.map_nil, List.append_nil, pushSegments]
  | cons s rest ih =>
    cases rest with
    | nil => exact pushSegment_plain (h s List.mem_cons_self) true
    | cons t rest =>
      have htail := ih (path ++ [percentEncode inPathSet s])
        (fun u hu => h u (List.mem_cons_of_mem _ hu))
      change pushSegments (pushSegment path false (percentEncode inPathSet s))
        ((t :: rest).map (percentEncode inPathSet)) = _
      rw [pushSegment_plain (h s List.mem_cons_self), htail, List.append_assoc]
      rfl

theorem cleaned_eq_self {input : Str} (h : ∀ c ∈ input, 0x20 < c.toNat) : cleaned input = input := by
  have htrim : input.rdropWhile (fun c => c.toNat ≤ 0x20) = input := by
    apply Segments.rdropWhile_eq_self
    intro c hc
    have hlarge := h c hc
    rw [decide_eq_false_iff_not]
    omega
  rw [cleaned, htrim, List.filter_eq_self]
  intro c hc
  have hlarge := h c hc
  have hne : c ≠ '\t' ∧ c ≠ '\n' ∧ c ≠ '\r' := by
    refine ⟨?_, ?_, ?_⟩ <;> rintro rfl <;> revert hlarge <;> decide
  simp [hne.1, hne.2.1, hne.2.2]

theorem flatMap_slash {segments : List Str} (hne : segments ≠ []) :
    segments.flatMap ('/' :: ·) = '/' :: ['/'].intercalate segments := by
  induction segments with
  | nil => exact absurd rfl hne
  | cons s rest ih =>
    cases rest with
    | nil => rw [List.flatMap_singleton, List.intercalate_singleton]
    | cons t rest =>
      rw [List.flatMap_cons, ih (List.cons_ne_nil t rest),
        List.intercalate_cons_of_ne_nil (List.cons_ne_nil t rest), List.cons_append,
        List.append_assoc, List.singleton_append]

theorem pathPart_eq_self {input : Str} (h : ∀ c ∈ input, c = '/' ∨ isPlain c = true) :
    pathPart input = input := by
  have hclean : cleaned input = input := by
    apply cleaned_eq_self
    intro c hc
    rcases h c hc with rfl | hp
    · decide
    · exact (isPlain_iff.1 hp).1
  have htake : input.takeWhile (fun c => c ≠ '?' && c ≠ '#') = input := by
    rw [List.takeWhile_eq_self_iff]
    intro c hc
    rcases h c hc with rfl | hp
    · decide
    · obtain ⟨-, -, -, hquery, hhash⟩ := isPlain_iff.1 hp
      simp [hquery, hhash]
  rw [pathPart, hclean, htake]
  conv_rhs => rw [← List.map_id input]
  apply List.map_congr_left
  intro c hc
  apply if_neg
  rcases h c hc with rfl | hp
  · decide
  · exact (isPlain_iff.1 hp).2.2.1

/-- The path of plain segments keeps its segments, each percent-encoded. -/
theorem pathname_plain {segments : List Str} (hne : segments ≠ [])
    (h : ∀ s ∈ segments, PlainSegment s) :
    pathname (segments.flatMap ('/' :: ·)) =
      segments.flatMap fun s => '/' :: percentEncode inPathSet s := by
  have hchars : ∀ c ∈ segments.flatMap ('/' :: ·), c = '/' ∨ isPlain c = true := by
    intro c hc
    obtain ⟨s, hs, hcs⟩ := List.mem_flatMap.1 hc
    rcases List.mem_cons.1 hcs with rfl | hcs
    · exact .inl rfl
    · exact .inr ((h s hs).plain c hcs)
  have hpath := pathPart_eq_self hchars
  have hsplit : ((segments.flatMap ('/' :: ·)).drop 1).splitOn '/' = segments := by
    rw [flatMap_slash hne, List.drop_one, List.tail_cons]
    apply List.splitOn_intercalate '/' _ hne
    intro s hs hc
    exact (isPlain_iff.1 ((h s hs).plain '/' hc)).2.1 rfl
  rw [pathname, hpath, hsplit, pushSegments_plain [] h, List.nil_append, List.flatMap_map]

end JsrProxy.UrlPath
