import JsrProxy.JsonText
import JsrProxy.SourceArchive

set_option autoImplicit false

/-!
# The root configuration

What materialization reads from the root `deno.json` or `jsr.json`, with the
validation of export maps. How the JSON text becomes a raw configuration is a
parameter, whose error text goes into the diagnostic.
-/
namespace JsrProxy

/-- The root configuration information materialization needs before walking a graph. -/
structure SourceConfiguration where
  exports : BTreeMap Str
  imports : BTreeMap Str

structure RawConfiguration where
  exports : Option Json
  imports : BTreeMap Str

inductive ConfigError
  | invalidJson (error : Str)
  | missingExports
  | emptyExports
  | invalidExports (error : Str)
deriving DecidableEq, Repr

def ConfigError.message : ConfigError → Str
  | .invalidJson error => "invalid root configuration: ".toList ++ error
  | .missingExports => "root configuration has no exports field".toList
  | .emptyExports => "root configuration exports is empty".toList
  | .invalidExports error => error

/-- `serde_json::from_slice::<RawConfiguration>`, or the text of its error. The members of
    an object come in the order in which its map iterates. -/
abbrev ConfigurationReader := Bytes → Except Str RawConfiguration

namespace JsrExports

def hasExtension (value : Str) : Bool :=
  match (value.splitOn '/').getLast? with
  | none => false
  | some part => part.contains '.'

def isKeyChar (c : Char) : Bool := c.isAlphanum || c ∈ "-_/.".toList

def validateKey (key : Str) : Except Str Unit :=
  if key = ".".toList then .ok ()
  else if !"./".toList.isPrefixOf key then
    let suggestion := if key.head? = some '/' then '.' :: key else "./".toList ++ key
    .error ("the key '".toList ++ key ++ "' must start with a ./, did you mean '".toList ++
      suggestion ++ "'?".toList)
  else if key.getLast? = some '/' then
    .error ("the key '".toList ++ key ++ "' must not end with '/', did you mean '".toList ++
      key.rdropWhile (· = '/') ++ "'?".toList)
  else if !key.all isKeyChar then
    .error ("the key '".toList ++ key ++
      "' contains invalid characters, only [a-z][A-Z][0-9]-_/. are allowed".toList)
  else if ((key.splitOn '/').drop 1).any fun part => part.all (· = '.') then
    .error ("the key '".toList ++ key ++
      "' must not contain double slashes (//) or parts entirely of dots (.).".toList)
  else .ok ()

def validateValue (key value : Str) : Except Str Unit :=
  if value.isEmpty then
    .error ("the path for ".toList ++ key ++ " must be a non-empty relative path".toList)
  else if !"./".toList.isPrefixOf value then
    .error ("the path '".toList ++ value ++ "' for ".toList ++ key ++
      " could not be resolved as a relative path from the config file, did you mean './".toList ++
      value ++ "'?".toList)
  else if value.getLast? = some '/' || !hasExtension value then
    .error ("the path '".toList ++ value ++ "' for ".toList ++ key ++
      " must not end in / and must have a file extension".toList)
  else .ok ()

def exportEntry (result : BTreeMap Str) (key : Str) (value : Json) : Except Str (BTreeMap Str) :=
  match validateKey key with
  | .error message => .error message
  | .ok () =>
    match value with
    | .string value =>
      match validateValue ("export '".toList ++ key ++ "'".toList) value.wellFormed with
      | .error message => .error message
      | .ok () => .ok (result.insert key value.wellFormed)
    | value => .error ("export '".toList ++ key ++ "' must be a string, invalid value: '".toList ++
        value.write ++ "'".toList)

def exportEntries (result : BTreeMap Str) : List (JsString × Json) → Except Str (BTreeMap Str)
  | [] => .ok result
  | (key, value) :: rest =>
    match exportEntry result key.wellFormed value with
    | .error message => .error message
    | .ok result => exportEntries result rest

/-- Validates JSR export-map syntax and returns its normalized entries. -/
def exportsMapFromJson (exports : Option Json) : Except Str (BTreeMap Str) :=
  match exports with
  | none => .ok ∅
  | some (.string value) =>
    match validateValue "the root export".toList value.wellFormed with
    | .error message => .error message
    | .ok () => .ok ((∅ : BTreeMap Str).insert ".".toList value.wellFormed)
  | some (.object members) => exportEntries ∅ members
  | some _ => .error "'exports' field must be a string or an object".toList

end JsrExports

/-- Parses either `deno.json` or `jsr.json` at the repository root. -/
def parseRootConfiguration (reader : ConfigurationReader) (bytes : Bytes) :
    Except ConfigError SourceConfiguration :=
  match reader bytes with
  | .error error => .error (.invalidJson error)
  | .ok raw =>
    if raw.exports.isNone then .error .missingExports
    else
      match JsrExports.exportsMapFromJson raw.exports with
      | .error error => .error (.invalidExports error)
      | .ok exports =>
        if exports.isEmpty then .error .emptyExports
        else .ok ⟨exports, raw.imports⟩

end JsrProxy
