/-
# The paths of archive entries

Two checks stand before the extraction of an archive. The first normalises a path and refuses what
leads out of the root; the second trims an entry's name, drops the slashes at its end, and asks the
first. The extractor is given the names as they are in the archive.

A path is resolved segment by segment; an empty segment and a dot lead nowhere.
-/

import Eveland.Core.JsString
import Eveland.Foundations.PathSteps

namespace Eveland.ArchivePaths

open JsString (isWhitespace trim)

/-! ## Normalising a path -/

/-- `normalizeString` for one segment. The segments kept so far are innermost first. -/
def normalizeSegment (allowAboveRoot : Bool) (kept : List (List Char)) (segment : List Char) :
    List (List Char) :=
  if segment = [] ∨ segment = ['.'] then kept
  else if segment = ['.', '.'] then
    match kept with
    | [] => if allowAboveRoot then [segment] else []
    | last :: rest =>
        if last = ['.', '.'] then if allowAboveRoot then segment :: kept else kept else rest
  else segment :: kept

/-- `normalizeString`. -/
def normalizeString (allowAboveRoot : Bool) (segments : List (List Char)) : List (List Char) :=
  segments.foldl (normalizeSegment allowAboveRoot) []

/-- `path.posix.isAbsolute`. -/
def isAbsolute (path : List Char) : Bool := path.head? = some '/'

def endsWithSlash (path : List Char) : Bool := path.getLast? = some '/'

/-- `path.posix.normalize`. -/
def normalize (path : List Char) : List Char :=
  if path = [] then ['.']
  else
    let joined := ['/'].intercalate
      (normalizeString (!isAbsolute path) (path.splitOn '/')).reverse
    if joined = [] then
      if isAbsolute path then ['/'] else if endsWithSlash path then ['.', '/'] else ['.']
    else
      let text := if endsWithSlash path then joined ++ ['/'] else joined
      if isAbsolute path then '/' :: text else text

/-- `./` is dropped from the start, as often as it stands there. -/
def dropDotSlashes : List Char → List Char
  | '.' :: '/' :: rest => dropDotSlashes rest
  | path => path

def normalizeArchivePath (input : List Char) : List Char :=
  dropDotSlashes (normalize (input.map fun c => if c = '\\' then '/' else c))

/-! ## The two checks -/

/-- `/^[A-Za-z]:/`. -/
def hasDrivePrefix : List Char → Bool
  | c :: ':' :: _ => (65 ≤ c.toNat && c.toNat ≤ 90) || (97 ≤ c.toNat && c.toNat ≤ 122)
  | _ => false

/-- What both the check and the promise ask of the characters of a path. -/
def isPlain (input : List Char) : Bool :=
  !input.any (fun c => c.toNat = 0) && !input.any (fun c => c = '\\') && !hasDrivePrefix input

def unsafeMessage (input : List Char) : String := "Unsafe archive path: " ++ String.ofList input

def assertSafeArchivePath (input : List Char) : Except String (List Char) :=
  if input = [] ∨ isPlain input = false then .error (unsafeMessage input)
  else
    let normalized := normalizeArchivePath input
    if normalized = ['.'] ∨ ['/'].isPrefixOf normalized ∨ normalized = ['.', '.'] ∨
        ['.', '.', '/'].isPrefixOf normalized ∨ ['.', '.'] ∈ normalized.splitOn '/' then
      .error (unsafeMessage input)
    else .ok normalized

/-- The slashes at the end are dropped. -/
def dropTrailingSlashes (path : List Char) : List Char :=
  (path.reverse.dropWhile (· = '/')).reverse

def assertSafeZipEntry (entry : List Char) : Except String Unit :=
  let normalizedEntry := dropTrailingSlashes (trim entry)
  if normalizedEntry = [] then .ok ()
  else (assertSafeArchivePath normalizedEntry).map fun _ => ()

/-! ## Where a path leads -/

/-- The name of a file or a directory. -/
structure Name where
  text : List Char
  nonempty : text ≠ []
  not_dot : text ≠ ['.']
  not_dots : text ≠ ['.', '.']
  deriving DecidableEq

/-- The step that a segment stands for. -/
def toStep (segment : List Char) : PathStep Name :=
  if hhere : segment = [] ∨ segment = ['.'] then .here
  else if hup : segment = ['.', '.'] then .up
  else .into ⟨segment, fun h => hhere (Or.inl h), fun h => hhere (Or.inr h), hup⟩

def steps (path : List Char) : List (PathStep Name) := (path.splitOn '/').map toStep

/-- Where a path leads from a root. An absolute path leads there from the top. -/
def resolve (root : List Name) (path : List Char) : List Name :=
  if isAbsolute path then PathStep.walk [] (steps path) else PathStep.walk root (steps path)

/-- The path leads strictly inside every root. -/
def LeadsInside (path : List Char) : Prop :=
  ∀ root, PathStep.StrictlyBelow root (resolve root path)

/-- What the checks promise of a path. -/
structure StaysInside (path : List Char) : Prop where
  accepted : ∀ result, assertSafeArchivePath path = .ok result →
    result ≠ [] ∧ isAbsolute result = false ∧ LeadsInside path ∧
      ∀ root, resolve root path = resolve root result
  extracted : assertSafeZipEntry path = .ok () → trim path ≠ [] → LeadsInside path
  complete : isPlain path = true → isAbsolute path = false → LeadsInside path →
    ∃ result, assertSafeArchivePath path = .ok result

/-- A relative path that ends with a slash and leads nowhere. -/
structure LeadsNowhere (path : List Char) : Prop where
  plain : isPlain path = true
  relative : isAbsolute path = false
  slash : endsWithSlash path = true
  nowhere : ∀ root, resolve root path = root

/-- Slashes, and nothing after them but white space. -/
def isSlashes (path : List Char) : Bool :=
  isAbsolute path && (path.dropWhile (· = '/')).all isWhitespace

end Eveland.ArchivePaths
