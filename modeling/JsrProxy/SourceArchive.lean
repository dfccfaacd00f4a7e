import JsrProxy.Utf8

set_option autoImplicit false

/-!
# Source archives

`unpack_archive`, over the entries that the gzip and tar readers deliver, and the
JSR publishing subset of paths that it accepts.
-/
namespace JsrProxy

abbrev BTreeMap (ν : Type) := Std.ExtTreeMap Str ν

def byteLength (text : Str) : ℕ := (Utf8.encode text).length

def toAsciiLowercase (text : Str) : Str := text.map Char.toLower

structure SourceFailure where
  failureClass : Str
  message : Str
  exports : Option (BTreeMap Str)

inductive EntryType
  | regular
  | link
  | symlink
  | char
  | block
  | directory
  | fifo
  | continuous
  | gnuSparse
  | xGlobalHeader
  | unknown (typeflag : UInt8)
deriving DecidableEq, Repr

/-- An entry as the tar reader yields it: long names are resolved, the size is that of
    the header if it can be read, and reading ends or fails after the contents. -/
structure TarEntry where
  path : Bytes
  entryType : EntryType
  size : Option ℕ
  contents : Bytes
  fails : Bool
deriving DecidableEq, Repr

namespace TarEntry

/-- `entry.take(limit).read_to_end` -/
def read (entry : TarEntry) (limit : ℕ) : Option Bytes :=
  if limit ≤ entry.contents.length then some (entry.contents.take limit)
  else if entry.fails then none
  else some entry.contents

end TarEntry

namespace Service

/-- Mirrors the standard JSR publishing limit for one unpacked package file. -/
def maxSourceFileBytes : ℕ := 20 * 1024 * 1024

/-- Mirrors the standard JSR publishing limit for all unpacked package files. -/
def maxTotalSourceBytes : ℕ := 20 * 1024 * 1024

def invalidArchive (message : Str) : SourceFailure := ⟨"invalid-source-archive".toList, message, none⟩

def isAcceptedByte (c : Char) : Bool :=
  c.isAlphanum || c ∈ "$()+-.@[]_{}~".toList

def reserved : List Str :=
  ["aux", "com1", "com2", "com3", "com4", "com5", "com6", "com7", "com8", "com9", "con",
    "lpt1", "lpt2", "lpt3", "lpt4", "lpt5", "lpt6", "lpt7", "lpt8", "lpt9", "nul", "prn"].map
      String.toList

def stem (component : Str) : Str :=
  if '.' ∈ component then ((component.reverse.dropWhile (· ≠ '.')).drop 1).reverse else component

def isInvalidComponent (component : Str) : Bool :=
  component.isEmpty || component = ".".toList || component = "..".toList ||
    component.getLast? = some '.' || !component.all isAcceptedByte ||
    reserved.contains (toAsciiLowercase (stem component))

def isInvalidPath (path : Str) : Bool :=
  byteLength path > 154 || (path.splitOn '/').any isInvalidComponent ||
    (match (path.splitOn '/').getLast? with
      | none => true
      | some component => byteLength component > 95) ||
    (match (path.splitOn '/').head? with
      | none => true
      | some component => toAsciiLowercase component = ".git".toList ||
          toAsciiLowercase component = "_dist".toList)

def validatePackagePath (path : Str) : Except SourceFailure Unit :=
  if isInvalidPath path then
    .error (invalidArchive
      ("source path is outside the accepted JSR publishing subset: ".toList ++ path))
  else .ok ()

structure Unpacking where
  files : BTreeMap Bytes
  archiveRoot : Option Str
  caseInsensitivePaths : BTreeMap Str
  totalSize : ℕ

def Unpacking.start : Unpacking := ⟨∅, none, ∅, 0⟩

def entryPath (entry : TarEntry) : Except SourceFailure (Str × List Str) :=
  match Utf8.decode? entry.path with
  | none => .error (invalidArchive "GitHub returned a source path that is not UTF-8".toList)
  | some path =>
    match (path.rdropWhile (· = '/')).splitOn '/' with
    | [] => .error (invalidArchive
        "GitHub returned a source path without an archive root".toList)
    | root :: relative =>
      if root.isEmpty then
        .error (invalidArchive "GitHub returned a source path without an archive root".toList)
      else if root = ".".toList ∨ root = "..".toList then
        .error (invalidArchive "GitHub returned an unsafe archive root".toList)
      else .ok (root, relative)

/-- The first root seen is the one that all entries must have. -/
def enterRoot (state : Unpacking) (root : Str) : Except SourceFailure Unpacking :=
  match state.archiveRoot with
  | some expectedRoot =>
    if expectedRoot ≠ root then
      .error (invalidArchive
        "GitHub returned source files from multiple archive roots".toList)
    else .ok state
  | none => .ok { state with archiveRoot := some root }

def unpackFile (state : Unpacking) (entry : TarEntry) (relative : Str) :
    Except SourceFailure Unpacking :=
  match entry.size with
  | none => .error (invalidArchive "GitHub returned an unreadable source file header".toList)
  | some size =>
    if size > maxSourceFileBytes then
      .error ⟨"source-file-too-large".toList,
        "a source file exceeds the materializer limit".toList, none⟩
    else if state.totalSize + size ≥ 2 ^ 64 ∨ state.totalSize + size > maxTotalSourceBytes then
      .error ⟨"source-package-too-large".toList,
        "the source package exceeds the materializer limit".toList, none⟩
    else
      match entry.read (maxSourceFileBytes + 1) with
      | none => .error (invalidArchive "GitHub returned an unreadable source file".toList)
      | some contents =>
        if contents.length ≠ size then
          .error (invalidArchive "GitHub returned a truncated source file".toList)
        else
          -- an accepted path is ASCII, where `to_lowercase` agrees with this
          match state.caseInsensitivePaths[toAsciiLowercase relative]? with
          | some existing => .error (invalidArchive
              ("GitHub returned case-insensitive duplicate source paths: ".toList ++ existing ++
                " and ".toList ++ relative))
          | none =>
            if relative ∈ state.files then
              .error (invalidArchive "GitHub returned duplicate source paths".toList)
            else .ok { state with
              files := state.files.insert relative contents
              caseInsensitivePaths :=
                state.caseInsensitivePaths.insert (toAsciiLowercase relative) relative
              totalSize := state.totalSize + size }

def unpackBelowRoot (state : Unpacking) (entry : TarEntry) (relative : List Str) :
    Except SourceFailure Unpacking :=
  if relative.isEmpty then
    if entry.entryType = .regular then
      .error (invalidArchive "GitHub returned a source file at the archive root".toList)
    else .ok state
  else if relative.any fun part => part.isEmpty || part = ".".toList || part = "..".toList then
    .error (invalidArchive "GitHub returned an unsafe source path".toList)
  else
    match validatePackagePath (['/'].intercalate relative) with
    | .error failure => .error failure
    | .ok () =>
      if entry.entryType = .directory then .ok state
      else if entry.entryType ≠ .regular then
        .error (invalidArchive
          "GitHub returned a source archive containing a link or unsupported entry".toList)
      else unpackFile state entry (['/'].intercalate relative)

/-- One turn of the loop over the entries. -/
def unpackEntry (state : Unpacking) (entry : TarEntry) : Except SourceFailure Unpacking :=
  match entryPath entry with
  | .error failure => .error failure
  | .ok (root, relative) =>
    match enterRoot state root with
    | .error failure => .error failure
    | .ok state => unpackBelowRoot state entry relative

/-- The entries in turn. The reader may fail in place of any of them. -/
def unpackEntries (state : Unpacking) : List (Option TarEntry) → Except SourceFailure Unpacking
  | [] => .ok state
  | none :: _ => .error (invalidArchive "GitHub returned an unreadable source archive".toList)
  | some entry :: rest =>
    match unpackEntry state entry with
    | .error failure => .error failure
    | .ok state => unpackEntries state rest

/-- `Archive::new(GzDecoder::new(bytes)).entries()`, which may fail at once. -/
abbrev ArchiveReader := Bytes → Option (List (Option TarEntry))

def unpackArchive (entries : ArchiveReader) (bytes : Bytes) : Except SourceFailure (BTreeMap Bytes) :=
  match entries bytes with
  | none => .error (invalidArchive "GitHub returned an unreadable source archive".toList)
  | some entries => (unpackEntries .start entries).map Unpacking.files

end Service
end JsrProxy
