import JsrProxy.SourceArchive

set_option autoImplicit false

/-!
# Import rewriting

The package's own import map, applied to the module specifiers of its sources.
Which nodes of a module are specifiers is a matter of the parser, which is a
parameter together with the printer.
-/
namespace JsrProxy

inductive MediaType
  | typeScript
  | mts
  | cts
  | tsx
  | javaScript
  | mjs
  | cjs
  | jsx
deriving DecidableEq, Repr

/-- What `deno_ast` provides, with the texts of its errors. A program carries its comments. -/
structure DenoAst where
  Program : Type
  parseSpecifier : Str → Except Str Str
  parseModule : Str → Str → MediaType → Except Str Program
  /-- Replaces the specifiers of imports, re-exports, literal dynamic imports and
      TypeScript import types. -/
  visitSpecifiers : (Str → Str) → Program → Program
  emit : Str → Str → Program → Except Str Str

def endsWith (text : Str) (suffix : String) : Bool := suffix.toList.isSuffixOf text

def stripLeading (lead text : Str) : Option Str :=
  if lead.isPrefixOf text then some (text.drop lead.length) else none

namespace ImportRewriting

def mediaType (path : Str) : MediaType :=
  if endsWith path ".tsx" then .tsx
  else if endsWith path ".mts" then .mts
  else if endsWith path ".cts" then .cts
  else if endsWith path ".ts" then .typeScript
  else if endsWith path ".jsx" then .jsx
  else if endsWith path ".mjs" then .mjs
  else if endsWith path ".cjs" then .cjs
  else .javaScript

def shared : List Str → List Str → ℕ
  | left :: source, right :: target => if left = right then shared source target + 1 else 0
  | _, _ => 0

def relativeSpecifier (sourcePath targetPath : Str) : Str :=
  let sourceDirectory := (sourcePath.splitOn '/').dropLast
  let target := targetPath.splitOn '/'
  let common := shared sourceDirectory target
  let value := ['/'].intercalate
    (List.replicate (sourceDirectory.length - common) "..".toList ++ target.drop common)
  if "..".toList.isPrefixOf value then value else "./".toList ++ value

def aliasSuffix (name specifier : Str) : Option Str :=
  if name.getLast? = some '/' then stripLeading name specifier
  else if specifier = name then some []
  else none

def candidates (imports : BTreeMap Str) (specifier : Str) : List (ℕ × Str × Str) :=
  imports.toList.filterMap fun entry => (aliasSuffix entry.1 specifier).map fun suffix =>
    (byteLength entry.1, entry.2, suffix)

/-- `max_by_key`, which keeps the last of several greatest. -/
def longest : List (ℕ × Str × Str) → Option (ℕ × Str × Str)
  | [] => none
  | candidate :: rest =>
    match longest rest with
    | none => some candidate
    | some best => if best.1 < candidate.1 then some candidate else some best

def rewrite (path : Str) (imports : BTreeMap Str) (specifier : Str) : Str :=
  match longest (candidates imports specifier) with
  | none => specifier
  | some (_, target, suffix) =>
    match stripLeading "./".toList target with
    | some target => relativeSpecifier path (target ++ suffix)
    | none => target ++ suffix

/-- Rewrites only actual module-specifier nodes, never comments or ordinary strings. -/
def rewriteImportMapSpecifiers (ast : DenoAst) (path : Str) (bytes : Bytes) (imports : BTreeMap Str) :
    Except Str Str :=
  match Utf8.decode? bytes with
  | none => .error ("source file ".toList ++ path ++ " is not UTF-8".toList)
  | some source =>
    match ast.parseSpecifier ("file:///".toList ++ path) with
    | .error error => .error
        ("source file ".toList ++ path ++ " has an invalid module specifier: ".toList ++ error)
    | .ok specifier =>
      match ast.parseModule specifier source (mediaType path) with
      | .error error => .error
          ("source file ".toList ++ path ++ " could not be parsed: ".toList ++ error)
      | .ok program =>
        match ast.emit path source (ast.visitSpecifiers (rewrite path imports) program) with
        | .error error => .error
            ("source file ".toList ++ path ++ " could not be emitted: ".toList ++ error)
        | .ok text => .ok text

end ImportRewriting
end JsrProxy
