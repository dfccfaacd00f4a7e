import JsrProxy.JsonText
import JsrProxy.UrlPaths

set_option autoImplicit false

/-!
# Requests and responses

The Fetch API's messages. Header names are in lower case and occur once.
-/
namespace JsrProxy

abbrev Headers := List (Str × Str)

structure Response where
  status : ℕ
  headers : Headers
  body : Bytes
deriving DecidableEq, Repr

structure Url where
  /-- The scheme, the host and the port. -/
  origin : Str
  pathname : Str
  search : Str
deriving DecidableEq, Repr

structure Request where
  method : Str
  url : Url
  headers : Headers
  body : Bytes
deriving DecidableEq, Repr

def Url.parse (origin input : Str) : Url := ⟨origin, UrlPath.pathname input, UrlPath.search input⟩

namespace Headers

/-- A header value without the white space around it, unless it has a character that
    no header may have. -/
def normalize (value : Str) : Option Str :=
  let isBlank (c : Char) : Bool := c ∈ [' ', '\t', '\n', '\r']
  let value := (value.dropWhile isBlank).rdropWhile isBlank
  if value.any fun c => c ∈ ['\x00', '\n', '\r'] || 0xff < c.toNat then none else some value

theorem normalize_eq_self {value : Str} (h : ∀ c ∈ value, 0x20 < c.toNat ∧ c.toNat ≤ 0xff) :
    normalize value = some value := by
  have hne : ∀ c ∈ value, ∀ d : Char, d.toNat ≤ 0x20 → c ≠ d := by
    rintro c hc d hd rfl
    have hlarge := (h c hc).1
    omega
  have hblank : ∀ c ∈ value, decide (c ∈ [' ', '\t', '\n', '\r']) = false := by
    intro c hc
    simp [hne c hc]
  have hany : (value.any fun c => c ∈ ['\x00', '\n', '\r'] || 0xff < c.toNat) = false := by
    rw [List.any_eq_false]
    intro c hc
    simp [hne c hc, (h c hc).2]
  simp only [normalize, Segments.dropWhile_eq_self hblank, Segments.rdropWhile_eq_self hblank, hany,
    Bool.false_eq_true, if_false]

def get (headers : Headers) (name : Str) : Option Str := headers.lookup name

theorem mem_of_get {headers : Headers} {name value : Str} (h : headers.get name = some value) :
    (name, value) ∈ headers := by
  obtain ⟨before, after, rfl, -⟩ := List.lookup_eq_some_iff.1 h
  exact List.mem_append_right _ List.mem_cons_self

def has (headers : Headers) (name : Str) : Bool := (headers.get name).isSome

def delete (headers : Headers) (name : Str) : Headers := headers.filter fun header => header.1 ≠ name

def set (headers : Headers) (name value : Str) : Headers := headers.delete name ++ [(name, value)]

/-- The content type of a body counts unless the headers name one. -/
def withContentType (headers : Headers) (contentType : Str) : Headers :=
  if headers.has "content-type".toList then headers
  else headers ++ [("content-type".toList, contentType)]

end Headers

namespace Response

def isOk (status : ℕ) : Bool := 200 ≤ status && status ≤ 299

def ok (response : Response) : Bool := isOk response.status

def text (status : ℕ) (message : Str) (headers : Headers) : Response :=
  ⟨status, headers.withContentType "text/plain;charset=UTF-8".toList, Utf8.encode message⟩

def json (status : ℕ) (body : Json) (headers : Headers) : Response :=
  ⟨status, headers.withContentType "application/json".toList, Utf8.encode body.write⟩

end Response
end JsrProxy
