import JsrProxy.Segments
import JsrProxy.Utf8

set_option autoImplicit false

/-!
# JSON texts

The compact writer and the full reader of JSON values, and that a written value
reads back as itself. A number is kept as its literal. An escaped surrogate without
its other half makes a string that no text equals.
-/
namespace JsrProxy

def isHigh (unit : ℕ) : Bool := 0xd800 ≤ unit && unit ≤ 0xdbff

def isLow (unit : ℕ) : Bool := 0xdc00 ≤ unit && unit ≤ 0xdfff

def isSurrogate (point : ℕ) : Bool := isHigh point || isLow point

/-- A string of JavaScript: a text, or code points of which some is an unpaired surrogate. -/
inductive JsString
  | text (content : Str)
  | unpaired (points : List ℕ) (lone : points.any isSurrogate = true)
deriving DecidableEq

instance : Coe Str JsString := ⟨JsString.text⟩

namespace JsString

def ofPoints (points : List ℕ) : JsString :=
  if h : points.any isSurrogate = true then .unpaired points h else .text (points.map Char.ofNat)

def text? : JsString → Option Str
  | .text content => some content
  | .unpaired _ _ => none

/-- `String.prototype.toWellFormed` -/
def wellFormed : JsString → Str
  | .text content => content
  | .unpaired points _ => points.map fun point =>
      if isSurrogate point then '\ufffd' else Char.ofNat point

theorem text_of_text? {string : JsString} {content : Str} (h : string.text? = some content) :
    string = .text content := by
  cases string with
  | text found => exact congrArg JsString.text (Option.some.inj h)
  | unpaired points lone => cases h

theorem eq_text_of_wellFormed {string : JsString} {content : Str} (hplain : '\ufffd' ∉ content)
    (h : string.wellFormed = content) : string = .text content := by
  cases string with
  | text found => exact congrArg JsString.text h
  | unpaired points lone =>
    obtain ⟨point, hpoint, hsurrogate⟩ := List.any_eq_true.1 lone
    refine absurd ?_ hplain
    rw [← h]
    exact List.mem_map.2 ⟨point, hpoint, if_pos hsurrogate⟩

end JsString

inductive Json
  | null
  | bool (b : Bool)
  | number (literal : Str)
  | string (text : JsString)
  | array (items : List Json)
  | object (members : List (JsString × Json))

namespace Json

def hexDigit (n : ℕ) : Char := Nat.digitChar n

def escapeChar (c : Char) : Str :=
  if c = '"' then ['\\', '"']
  else if c = '\\' then ['\\', '\\']
  else if c = '\x08' then ['\\', 'b']
  else if c = '\x0c' then ['\\', 'f']
  else if c = '\n' then ['\\', 'n']
  else if c = '\r' then ['\\', 'r']
  else if c = '\t' then ['\\', 't']
  else if c.toNat < 0x20 then
    ['\\', 'u', '0', '0', hexDigit (c.toNat / 16), hexDigit (c.toNat % 16)]
  else [c]

def escapePoint (point : ℕ) : Str :=
  if isSurrogate point then '\\' :: 'u' :: Nat.toDigits 16 point else escapeChar (Char.ofNat point)

/-- An unpaired surrogate is written as its escape. -/
def escaped : JsString → Str
  | .text text => text.flatMap escapeChar
  | .unpaired points _ => points.flatMap escapePoint

def writeString (text : JsString) : Str := '"' :: escaped text ++ ['"']

mutual

def write : Json → Str
  | .null => "null".toList
  | .bool true => "true".toList
  | .bool false => "false".toList
  | .number literal => literal
  | .string text => writeString text
  | .array [] => ['[', ']']
  | .array (item :: items) => '[' :: (write item ++ writeItems items)
  | .object [] => ['{', '}']
  | .object ((key, value) :: members) =>
    '{' :: (writeString key ++ ':' :: (write value ++ writeMembers members))

def writeItems : List Json → Str
  | [] => [']']
  | item :: items => ',' :: (write item ++ writeItems items)

def writeMembers : List (JsString × Json) → Str
  | [] => ['}']
  | (key, value) :: members =>
    ',' :: (writeString key ++ ':' :: (write value ++ writeMembers members))

end

def isSpace (c : Char) : Bool := c = ' ' || c = '\t' || c = '\n' || c = '\r'

def skipSpace (input : Str) : Str := input.dropWhile isSpace

def hexValue (c : Char) : Option ℕ :=
  if '0' ≤ c ∧ c ≤ '9' then some (c.toNat - '0'.toNat)
  else if 'a' ≤ c ∧ c ≤ 'f' then some (c.toNat - 'a'.toNat + 10)
  else if 'A' ≤ c ∧ c ≤ 'F' then some (c.toNat - 'A'.toNat + 10)
  else none

def hexUnit (a b c d : Char) : Option ℕ :=
  match hexValue a, hexValue b, hexValue c, hexValue d with
  | some a, some b, some c, some d => some (((a * 16 + b) * 16 + c) * 16 + d)
  | _, _, _, _ => none

def simpleEscape (c : Char) : Option ℕ :=
  if c = '"' ∨ c = '\\' ∨ c = '/' then some c.toNat
  else if c = 'b' then some 0x08
  else if c = 'f' then some 0x0c
  else if c = 'n' then some 0x0a
  else if c = 'r' then some 0x0d
  else if c = 't' then some 0x09
  else none

/-- The code points and escaped code units up to the closing quote. -/
def readUnits : Str → Option (List ℕ × Str)
  | [] => none
  | '"' :: rest => some ([], rest)
  | '\\' :: 'u' :: a :: b :: c :: d :: rest =>
    match hexUnit a b c d, readUnits rest with
    | some unit, some (units, rest) => some (unit :: units, rest)
    | _, _ => none
  | '\\' :: c :: rest =>
    match simpleEscape c, readUnits rest with
    | some unit, some (units, rest) => some (unit :: units, rest)
    | _, _ => none
  | c :: rest =>
    if c.toNat < 0x20 then none
    else (readUnits rest).map fun (units, rest) => (c.toNat :: units, rest)

/-- The code points of a list of units, in which a high surrogate and a low one behind it
    are one. -/
def pointsOfUnits : List ℕ → List ℕ
  | [] => []
  | [unit] => [unit]
  | unit :: next :: rest =>
    if isHigh unit && isLow next then
      (0x10000 + (unit - 0xd800) * 1024 + (next - 0xdc00)) :: pointsOfUnits rest
    else unit :: pointsOfUnits (next :: rest)

def readString (input : Str) : Option (JsString × Str) :=
  (readUnits input).map fun (units, rest) => (.ofPoints (pointsOfUnits units), rest)

def isNumberChar (c : Char) : Bool :=
  c.isDigit || c = '-' || c = '+' || c = '.' || c = 'e' || c = 'E'

def isExponent : Str → Bool
  | [] => true
  | e :: '+' :: digits => (e = 'e' || e = 'E') && !digits.isEmpty && digits.all Char.isDigit
  | e :: '-' :: digits => (e = 'e' || e = 'E') && !digits.isEmpty && digits.all Char.isDigit
  | e :: digits => (e = 'e' || e = 'E') && !digits.isEmpty && digits.all Char.isDigit

def isFraction : Str → Bool
  | '.' :: rest =>
    !(rest.takeWhile Char.isDigit).isEmpty && isExponent (rest.dropWhile Char.isDigit)
  | rest => isExponent rest

def isUnsigned : Str → Bool
  | '0' :: rest => isFraction rest
  | c :: rest => c.isDigit && isFraction (rest.dropWhile Char.isDigit)
  | [] => false

def isNumber : Str → Bool
  | '-' :: rest => isUnsigned rest
  | rest => isUnsigned rest

def readNumber (input : Str) : Option (Json × Str) :=
  if isNumber (input.takeWhile isNumberChar) then
    some (.number (input.takeWhile isNumberChar), input.dropWhile isNumberChar)
  else none

mutual

def readValue : ℕ → Str → Option (Json × Str)
  | 0, _ => none
  | fuel + 1, input =>
    match skipSpace input with
    | 'n' :: 'u' :: 'l' :: 'l' :: rest => some (.null, rest)
    | 't' :: 'r' :: 'u' :: 'e' :: rest => some (.bool true, rest)
    | 'f' :: 'a' :: 'l' :: 's' :: 'e' :: rest => some (.bool false, rest)
    | '"' :: rest => (readString rest).map fun (text, rest) => (.string text, rest)
    | '[' :: rest =>
      match skipSpace rest with
      | ']' :: rest => some (.array [], rest)
      | _ => (readItems fuel rest).map fun (items, rest) => (.array items, rest)
    | '{' :: rest =>
      match skipSpace rest with
      | '}' :: rest => some (.object [], rest)
      | _ => (readMembers fuel rest).map fun (members, rest) => (.object members, rest)
    | rest => readNumber rest

def readItems : ℕ → Str → Option (List Json × Str)
  | 0, _ => none
  | fuel + 1, input =>
    match readValue fuel input with
    | none => none
    | some (item, rest) =>
      match skipSpace rest with
      | ',' :: rest => (readItems fuel rest).map fun (items, rest) => (item :: items, rest)
      | ']' :: rest => some ([item], rest)
      | _ => none

def readMembers : ℕ → Str → Option (List (JsString × Json) × Str)
  | 0, _ => none
  | fuel + 1, input =>
    match skipSpace input with
    | '"' :: rest =>
      match readString rest with
      | none => none
      | some (key, rest) =>
        match skipSpace rest with
        | ':' :: rest =>
          match readValue fuel rest with
          | none => none
          | some (value, rest) =>
            match skipSpace rest with
            | ',' :: rest =>
              (readMembers fuel rest).map fun (members, rest) => ((key, value) :: members, rest)
            | '}' :: rest => some ([(key, value)], rest)
            | _ => none
        | _ => none
    | _ => none

end

/-- `JSON.parse`: one value with nothing but white space around it. -/
def parse (text : Str) : Option Json :=
  match readValue (text.length + 1) text with
  | none => none
  | some (value, rest) => if skipSpace rest = [] then some value else none

/-- The own property of a parsed value. The last member of a name counts. -/
def get? (value : Json) (key : Str) : Option Json :=
  match value with
  | .object members => members.reverse.lookup (.text key)
  | .array items => (items.zipIdx.find? fun item => Nat.toDigits 10 item.2 = key).map Prod.fst
  | _ => none

theorem hexValue_hexDigit : ∀ n < 16, hexValue (hexDigit n) = some n := by decide

theorem readUnits_plain {c : Char} (hq : c ≠ '"') (hb : c ≠ '\\') (hs : ¬ c.toNat < 0x20)
    (rest : Str) :
    readUnits (c :: rest) = (readUnits rest).map fun (units, rest) => (c.toNat :: units, rest) := by
  rw [readUnits.eq_def]
  split
  · rename_i heq
    cases heq
  · rename_i heq
    exact absurd (List.cons.inj heq).1 hq
  · rename_i heq
    exact absurd (List.cons.inj heq).1 hb
  · rename_i heq
    exact absurd (List.cons.inj heq).1 hb
  · rename_i heq
    obtain ⟨rfl, rfl⟩ := List.cons.inj heq
    rw [if_neg hs]

theorem readUnits_simple {c : Char} {unit : ℕ} (hu : c ≠ 'u') (hc : simpleEscape c = some unit)
    (rest : Str) : readUnits ('\\' :: c :: rest) =
      (readUnits rest).map fun (units, rest) => (unit :: units, rest) := by
  rw [readUnits.eq_def]
  split
  · rename_i heq
    cases heq
  · rename_i heq
    cases heq
  · rename_i heq
    exact absurd (List.cons.inj (List.cons.inj heq).2).1 hu
  · rename_i heq
    obtain ⟨rfl, rfl⟩ := List.cons.inj (List.cons.inj heq).2
    rw [hc]
    cases readUnits rest <;> rfl
  · rename_i hne heq
    obtain ⟨rfl, rfl⟩ := List.cons.inj heq
    exact absurd rfl (hne c rest rfl)

theorem readUnits_escapeChar (c : Char) (rest : Str) :
    readUnits (escapeChar c ++ rest) =
      (readUnits rest).map fun (units, rest) => (c.toNat :: units, rest) := by
  unfold escapeChar
  split_ifs with h1 h2 h3 h4 h5 h6 h7 h8
  · subst h1
    exact readUnits_simple (by decide) (by decide) rest
  · subst h2
    exact readUnits_simple (by decide) (by decide) rest
  · subst h3
    exact readUnits_simple (by decide) (by decide) rest
  · subst h4
    exact readUnits_simple (by decide) (by decide) rest
  · subst h5
    exact readUnits_simple (by decide) (by decide) rest
  · subst h6
    exact readUnits_simple (by decide) (by decide) rest
  · subst h7
    exact readUnits_simple (by decide) (by decide) rest
  · have hunit : hexUnit '0' '0' (hexDigit (c.toNat / 16)) (hexDigit (c.toNat % 16))
        = some c.toNat := by
      have h0 : hexValue '0' = some 0 := by decide
      rw [hexUnit, h0, hexValue_hexDigit _ (by omega), hexValue_hexDigit _ (by omega)]
      simp only [Option.some.injEq]
      omega
    simp only [List.cons_append, List.nil_append, readUnits, hunit]
    cases readUnits rest <;> rfl
  · exact readUnits_plain h1 h2 h8 rest

theorem readUnits_escaped (text rest : Str) :
    readUnits (text.flatMap escapeChar ++ '"' :: rest) = some (text.map Char.toNat, rest) := by
  induction text with
  | nil => rfl
  | cons c text ih =>
    rw [List.flatMap_cons, List.append_assoc, readUnits_escapeChar, ih]
    rfl

theorem not_surrogate (c : Char) : isHigh c.toNat = false ∧ isLow c.toNat = false := by
  have hvalid : c.toNat < 0xd800 ∨ 0xdfff < c.toNat ∧ c.toNat < 0x110000 := c.valid
  simp only [isHigh, isLow, Bool.and_eq_false_iff, decide_eq_false_iff_not]
  omega

theorem pointsOfUnits_toNat (text : Str) : pointsOfUnits (text.map Char.toNat) = text.map Char.toNat := by
  induction text with
  | nil => rfl
  | cons c text ih =>
    cases text with
    | nil => rfl
    | cons d text =>
      simp only [List.map_cons] at ih
      simp only [List.map_cons, pointsOfUnits, (not_surrogate c).1, Bool.false_and, Bool.false_eq_true,
        if_false, ih]

theorem ofPoints_toNat (text : Str) : JsString.ofPoints (text.map Char.toNat) = .text text := by
  have hpaired : ¬ (text.map Char.toNat).any isSurrogate = true := by
    simp only [List.any_map, List.any_eq_true, not_exists, not_and]
    intro c _
    simp only [Function.comp_apply, isSurrogate, (not_surrogate c).1, (not_surrogate c).2, Bool.or_self,
      Bool.false_eq_true, not_false_eq_true]
  rw [JsString.ofPoints, dif_neg hpaired, List.map_map]
  congr 1
  apply (List.map_congr_left _).trans (List.map_id text)
  exact fun c _ => Char.ofNat_toNat c

theorem readString_writeString (text rest : Str) :
    readString (text.flatMap escapeChar ++ '"' :: rest) = some (.text text, rest) := by
  simp only [readString, readUnits_escaped, pointsOfUnits_toNat, ofPoints_toNat, Option.map_some]

/-- The first half of a pair alone makes a string that is no text. -/
example : readString "\\ud800\"".toList = some (.unpaired [0xd800] rfl, []) := by decide +kernel

/-- What may follow a number without being taken for a part of it. -/
def Ends (rest : Str) : Prop := ∀ c, rest.head? = some c → isNumberChar c = false

theorem ends_cons {c : Char} (rest : Str) (h : isNumberChar c = false) : Ends (c :: rest) := by
  rintro d ⟨⟩
  exact h

theorem readNumber_literal {literal rest : Str} (hn : isNumber literal = true)
    (hc : ∀ c ∈ literal, isNumberChar c = true) (hr : Ends rest) :
    readNumber (literal ++ rest) = some (.number literal, rest) := by
  obtain ⟨htake, hdrop⟩ := Segments.span_append hc hr
  rw [readNumber, htake, hdrop, if_pos hn]

mutual

/-- Every string of the value is a text, every number a number literal. -/
def Valid : Json → Prop
  | .number literal => isNumber literal = true ∧ ∀ c ∈ literal, isNumberChar c = true
  | .string (.unpaired _ _) => False
  | .array items => ValidItems items
  | .object members => ValidMembers members
  | _ => True

def ValidItems : List Json → Prop
  | [] => True
  | item :: items => Valid item ∧ ValidItems items

def ValidMembers : List (JsString × Json) → Prop
  | [] => True
  | (.text _, value) :: members => Valid value ∧ ValidMembers members
  | (.unpaired _ _, _) :: _ => False

end

theorem validItems_iff {items : List Json} : ValidItems items ↔ ∀ item ∈ items, Valid item := by
  induction items with
  | nil => simp [ValidItems]
  | cons item items ih => rw [ValidItems, ih, List.forall_mem_cons]

theorem validMembers_iff {members : List (JsString × Json)} :
    ValidMembers members ↔ ∀ member ∈ members, (∃ key : Str, member.1 = key) ∧ Valid member.2 := by
  induction members with
  | nil => simp [ValidMembers]
  | cons member members ih =>
    obtain ⟨key, value⟩ := member
    rw [List.forall_mem_cons, ← ih]
    cases key with
    | text key => simp [ValidMembers]
    | unpaired points lone => simp [ValidMembers]

theorem toDigits_head (n : ℕ) :
    ∃ c rest, Nat.toDigits 10 n = c :: rest ∧ (c = '0' → rest = []) := by
  rcases Nat.lt_or_ge n 10 with hn | hn
  · exact ⟨_, _, Nat.toDigits_of_lt_base hn, fun _ => rfl⟩
  · obtain ⟨c, rest, he, hzero⟩ := toDigits_head (n / 10)
    refine ⟨c, rest ++ [Nat.digitChar (n % 10)], ?_, ?_⟩
    · rw [Nat.toDigits_of_base_le (by omega) hn, he, List.cons_append]
    · rintro rfl
      rw [hzero rfl] at he
      have hzero : n / 10 = 0 := Text.toDigits_inj he
      omega
termination_by n

theorem isNumber_toDigits (n : ℕ) :
    isNumber (Nat.toDigits 10 n) = true ∧ ∀ c ∈ Nat.toDigits 10 n, isNumberChar c = true := by
  constructor
  · obtain ⟨c, rest, he, hzero⟩ := toDigits_head n
    have hdigits : ∀ d ∈ c :: rest, d.isDigit = true := by
      intro d hd
      rw [← he] at hd
      exact Text.isDigit_of_mem_toDigits hd
    have hdrop : rest.dropWhile Char.isDigit = [] := by
      rw [List.dropWhile_eq_nil_iff]
      exact fun d hd => hdigits d (List.mem_cons_of_mem _ hd)
    have hunsigned : isUnsigned (c :: rest) = true := by
      unfold isUnsigned
      split
      · rename_i heq
        obtain ⟨hc, rfl⟩ := List.cons.inj heq
        rw [hzero hc]
        rfl
      · rename_i heq
        obtain ⟨rfl, rfl⟩ := List.cons.inj heq
        rw [hdrop, hdigits c List.mem_cons_self]
        rfl
      · rename_i heq
        cases heq
    rw [he, isNumber]
    · exact hunsigned
    · rintro tail heq
      obtain ⟨rfl, -⟩ := List.cons.inj heq
      exact absurd (hdigits '-' List.mem_cons_self) (by decide)
  · intro c hc
    rw [isNumberChar, Text.isDigit_of_mem_toDigits hc]
    rfl

theorem skipSpace_of_head {c : Char} (h : isSpace c = false) (rest : Str) :
    skipSpace (c :: rest) = c :: rest := by
  simp [skipSpace, h]

theorem number_head {literal : Str} (hn : isNumber literal = true) :
    ∃ c rest, literal = c :: rest ∧ (c = '-' ∨ c.isDigit = true) := by
  unfold isNumber at hn
  split at hn
  · exact ⟨_, _, rfl, .inl rfl⟩
  · unfold isUnsigned at hn
    split at hn
    · exact ⟨_, _, rfl, .inr rfl⟩
    · rw [Bool.and_eq_true] at hn
      exact ⟨_, _, rfl, .inr hn.1⟩
    · cases hn

theorem write_head {value : Json} (h : Valid value) :
    ∃ c rest, write value = c :: rest ∧ isSpace c = false ∧ c ≠ ']' ∧ c ≠ '\ufeff' := by
  cases value with
  | null => exact ⟨_, _, rfl, by decide, by decide, by decide⟩
  | bool b => cases b <;> exact ⟨_, _, rfl, by decide, by decide, by decide⟩
  | number literal =>
    obtain ⟨c, rest, rfl, hc⟩ := number_head h.1
    refine ⟨c, rest, rfl, ?_, ?_, ?_⟩
    · rcases hc with rfl | hd
      · decide
      · have hne : ∀ d : Char, d.isDigit = false → c ≠ d := by
          rintro d hd' rfl
          rw [hd] at hd'
          cases hd'
        simp [isSpace, hne ' ' (by decide), hne '\t' (by decide), hne '\n' (by decide),
          hne '\r' (by decide)]
    · rintro rfl
      rcases hc with hc | hc <;> exact absurd hc (by decide)
    · rintro rfl
      rcases hc with hc | hc <;> exact absurd hc (by decide)
  | string text => exact ⟨_, _, rfl, by decide, by decide, by decide⟩
  | array items => cases items <;> exact ⟨_, _, by rw [write], by decide, by decide, by decide⟩
  | object members =>
    cases members with
    | nil => exact ⟨_, _, by rw [write], by decide, by decide, by decide⟩
    | cons member members => exact ⟨_, _, by rw [write], by decide, by decide, by decide⟩

theorem write_length_pos {value : Json} (h : Valid value) : 0 < (write value).length := by
  obtain ⟨c, rest, he, -⟩ := write_head h
  rw [he]
  exact Nat.succ_pos _

theorem readValue_number {literal rest : Str} (hn : isNumber literal = true)
    (hc : ∀ c ∈ literal, isNumberChar c = true) (hr : Ends rest) (fuel : ℕ) :
    readValue (fuel + 1) (literal ++ rest) = some (.number literal, rest) := by
  rw [← readNumber_literal hn hc hr]
  obtain ⟨c, tail, rfl, hhead⟩ := number_head hn
  have hne : ∀ d : Char, d.isDigit = false → d ≠ '-' → c ≠ d := by
    rintro d hd hm rfl
    rcases hhead with rfl | hhead
    · exact hm rfl
    · rw [hd] at hhead
      cases hhead
  have hspace : isSpace c = false := by
    simp [isSpace, hne ' ' (by decide) (by decide), hne '\t' (by decide) (by decide),
      hne '\n' (by decide) (by decide), hne '\r' (by decide) (by decide)]
  rw [readValue, List.cons_append, skipSpace_of_head hspace]
  split
  · rename_i heq
    exact absurd (List.cons.inj heq).1 (hne 'n' (by decide) (by decide))
  · rename_i heq
    exact absurd (List.cons.inj heq).1 (hne 't' (by decide) (by decide))
  · rename_i heq
    exact absurd (List.cons.inj heq).1 (hne 'f' (by decide) (by decide))
  · rename_i heq
    exact absurd (List.cons.inj heq).1 (hne '"' (by decide) (by decide))
  · rename_i heq
    exact absurd (List.cons.inj heq).1 (hne '[' (by decide) (by decide))
  · rename_i heq
    exact absurd (List.cons.inj heq).1 (hne '{' (by decide) (by decide))
  · rfl

theorem ends_writeItems (items : List Json) (rest : Str) : Ends (writeItems items ++ rest) := by
  cases items <;> rw [writeItems] <;> exact ends_cons _ (by decide)

theorem ends_writeMembers (members : List (JsString × Json)) (rest : Str) :
    Ends (writeMembers members ++ rest) := by
  cases members <;> rw [writeMembers] <;> exact ends_cons _ (by decide)

theorem writeString_append (text rest : Str) :
    writeString text ++ rest = '"' :: (text.flatMap escapeChar ++ '"' :: rest) := by
  simp [writeString, escaped]

theorem writeString_inj {text text' : Str} (h : writeString text = writeString text') : text = text' := by
  have happend : writeString text ++ [] = writeString text' ++ [] := by rw [h]
  rw [writeString_append, writeString_append] at happend
  have hread := congrArg readString (List.cons.inj happend).2
  rw [readString_writeString, readString_writeString, Option.some.injEq, Prod.mk.injEq] at hread
  exact JsString.text.inj hread.1

theorem readValue_bracket (n : ℕ) (rest : Str) :
    readValue (n + 1) ('[' :: rest) = match skipSpace rest with
      | ']' :: rest => some (.array [], rest)
      | _ => (readItems n rest).map fun (items, rest) => (.array items, rest) := rfl

theorem readValue_brace (n : ℕ) (rest : Str) :
    readValue (n + 1) ('{' :: rest) = match skipSpace rest with
      | '}' :: rest => some (.object [], rest)
      | _ => (readMembers n rest).map fun (members, rest) => (.object members, rest) := rfl

theorem readItems_close {n : ℕ} {input rest : Str} {item : Json}
    (h : readValue n input = some (item, ']' :: rest)) :
    readItems (n + 1) input = some ([item], rest) := by
  rw [readItems, h]
  rfl

theorem readItems_comma {n : ℕ} {input rest : Str} {item : Json}
    (h : readValue n input = some (item, ',' :: rest)) :
    readItems (n + 1) input =
      (readItems n rest).map fun (items, rest) => (item :: items, rest) := by
  rw [readItems, h]
  rfl

theorem readMembers_close {n : ℕ} {input after rest : Str} {key : JsString} {value : Json}
    (hk : readString input = some (key, ':' :: after))
    (hv : readValue n after = some (value, '}' :: rest)) :
    readMembers (n + 1) ('"' :: input) = some ([(key, value)], rest) := by
  rw [readMembers, skipSpace_of_head (by decide)]
  simp only [hk]
  rw [skipSpace_of_head (by decide)]
  simp only [hv]
  rfl

theorem readMembers_comma {n : ℕ} {input after rest : Str} {key : JsString} {value : Json}
    (hk : readString input = some (key, ':' :: after))
    (hv : readValue n after = some (value, ',' :: rest)) :
    readMembers (n + 1) ('"' :: input) =
      (readMembers n rest).map fun (members, rest) => ((key, value) :: members, rest) := by
  rw [readMembers, skipSpace_of_head (by decide)]
  simp only [hk]
  rw [skipSpace_of_head (by decide)]
  simp only [hv]
  rfl

/-- Fuel for the length of a written value reads it back. -/
structure ReadsBack (fuel : ℕ) : Prop where
  value : ∀ value rest, Valid value → (write value).length ≤ fuel → Ends rest →
    readValue fuel (write value ++ rest) = some (value, rest)
  items : ∀ item items rest, Valid item → ValidItems items →
    (write item ++ writeItems items).length ≤ fuel → Ends rest →
    readItems fuel (write item ++ writeItems items ++ rest) = some (item :: items, rest)
  members : ∀ (key : Str) member members rest, Valid member → ValidMembers members →
    (writeString key ++ ':' :: (write member ++ writeMembers members)).length ≤ fuel → Ends rest →
    readMembers fuel (writeString key ++ ':' :: (write member ++ writeMembers members) ++ rest)
      = some ((.text key, member) :: members, rest)

theorem readValue_write {n : ℕ} (h : ReadsBack n) (value : Json) (rest : Str) (hv : Valid value)
    (hf : (write value).length ≤ n + 1) (hr : Ends rest) :
    readValue (n + 1) (write value ++ rest) = some (value, rest) := by
  cases value with
  | null => rfl
  | bool b => cases b <;> rfl
  | number literal => exact readValue_number hv.1 hv.2 hr n
  | string text =>
    cases text with
    | text text =>
      rw [write, writeString_append, readValue, skipSpace_of_head (by decide)]
      simp only [readString_writeString, Option.map_some]
    | unpaired points lone => exact hv.elim
  | array items =>
    cases items with
    | nil => rfl
    | cons item items =>
      obtain ⟨hitem, hitems⟩ : Valid item ∧ ValidItems items := by
        simpa [Valid, ValidItems] using hv
      rw [write, List.length_cons] at hf
      have hread := h.items item items rest hitem hitems (by omega) hr
      obtain ⟨c, tail, he, hspace, hne, -⟩ := write_head hitem
      rw [he] at hread
      rw [write, he, List.cons_append, readValue_bracket]
      simp only [List.cons_append] at hread ⊢
      rw [skipSpace_of_head hspace]
      split
      · rename_i heq
        exact absurd (List.cons.inj heq).1 hne
      · rw [hread]
        rfl
  | object members =>
    cases members with
    | nil => rfl
    | cons entry members =>
      obtain ⟨key, member⟩ := entry
      cases key with
      | unpaired points lone => exact hv.elim
      | text key =>
        obtain ⟨hmember, hmembers⟩ : Valid member ∧ ValidMembers members := hv
        rw [write, List.length_cons] at hf
        have hread := h.members key member members rest hmember hmembers (by omega) hr
        rw [write, List.cons_append, readValue_brace]
        rw [List.append_assoc, writeString_append] at hread ⊢
        rw [skipSpace_of_head (by decide), hread]
        rfl

theorem readItems_write {n : ℕ} (h : ReadsBack n) (item : Json) (items : List Json) (rest : Str)
    (hv : Valid item) (hvs : ValidItems items)
    (hf : (write item ++ writeItems items).length ≤ n + 1) (hr : Ends rest) :
    readItems (n + 1) (write item ++ writeItems items ++ rest) = some (item :: items, rest) := by
  have hpos := write_length_pos hv
  rw [List.length_append] at hf
  cases items with
  | nil =>
    rw [writeItems, List.length_singleton] at hf
    have hread := h.value item _ hv (by omega) (ends_writeItems [] rest)
    rw [writeItems, List.singleton_append] at hread
    rw [writeItems, List.append_assoc, List.singleton_append, readItems_close hread]
  | cons next items =>
    rw [writeItems, List.length_cons] at hf
    have hread := h.value item _ hv (by omega) (ends_writeItems (next :: items) rest)
    have hrest := h.items next items rest hvs.1 hvs.2 (by omega) hr
    rw [writeItems, List.cons_append] at hread
    rw [writeItems, List.append_assoc, List.cons_append, readItems_comma hread, hrest]
    rfl

theorem readMembers_write {n : ℕ} (h : ReadsBack n) (key : Str) (member : Json)
    (members : List (JsString × Json)) (rest : Str) (hv : Valid member) (hvs : ValidMembers members)
    (hf : (writeString key ++ ':' :: (write member ++ writeMembers members)).length ≤ n + 1)
    (hr : Ends rest) :
    readMembers (n + 1) (writeString key ++ ':' :: (write member ++ writeMembers members) ++ rest)
      = some ((.text key, member) :: members, rest) := by
  have hpos := write_length_pos hv
  rw [List.length_append, List.length_cons, List.length_append] at hf
  cases members with
  | nil =>
    rw [writeMembers, List.length_singleton] at hf
    have hread := h.value member _ hv (by omega) (ends_writeMembers [] rest)
    rw [writeMembers, List.singleton_append] at hread
    rw [writeMembers, List.append_assoc, writeString_append, List.cons_append, List.append_assoc,
      List.singleton_append]
    exact readMembers_close (readString_writeString key _) hread
  | cons entry members =>
    obtain ⟨nextKey, next⟩ := entry
    cases nextKey with
    | unpaired points lone => exact hvs.elim
    | text nextKey =>
      rw [writeMembers, List.length_cons] at hf
      have hread := h.value member _ hv (by omega)
        (ends_writeMembers ((.text nextKey, next) :: members) rest)
      have hrest := h.members nextKey next members rest hvs.1 hvs.2 (by omega) hr
      rw [writeMembers, List.cons_append] at hread
      rw [writeMembers, List.append_assoc, writeString_append, List.cons_append, List.append_assoc,
        List.cons_append, readMembers_comma (readString_writeString key _) hread, hrest]
      rfl

theorem readsBack (fuel : ℕ) : ReadsBack fuel := by
  induction fuel with
  | zero =>
    refine ⟨?_, ?_, ?_⟩
    · intro value rest hv hf
      have := write_length_pos hv
      omega
    · intro item items rest hv _ hf
      have := write_length_pos hv
      rw [List.length_append] at hf
      omega
    · intro key member members rest _ _ hf
      simp at hf
  | succ n ih => exact ⟨readValue_write ih, readItems_write ih, readMembers_write ih⟩

theorem parse_write {value : Json} (h : Valid value) : parse (write value) = some value := by
  have hread := (readsBack ((write value).length + 1)).value value [] h (by omega) (by simp [Ends])
  rw [List.append_nil] at hread
  rw [parse, hread]
  rfl

theorem parse_decode_write {value : Json} (h : Valid value) :
    parse (Utf8.decode (Utf8.encode (write value))) = some value := by
  obtain ⟨c, rest, he, -, -, hmark⟩ := write_head h
  rw [Utf8.decode_encode, parse_write h]
  rw [he]
  intro hc
  exact hmark (Option.some.inj hc)

end Json
end JsrProxy
