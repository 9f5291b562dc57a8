/-
# The Eve versions a project may declare

`eve-compatibility.ts` reads the minor line a dependency specifier pins with one
regular expression, and accepts the lines of the policy. `inspectEveProject` runs the
gate on the specifier `package.json` declares. The expression is read here from left to
right: every run of digits in it is followed by a dot, a dash or the end, so the longest
run is the only one that can match.
-/

import Eveland.Core.JsString
import Eveland.Core.Json
import Mathlib.Algebra.GroupWithZero.Nat

namespace Eveland.EveCompatibility

open JsString

/-! ## Numbers as JavaScript prints them -/

/-- `Number.MAX_SAFE_INTEGER`. -/
def maxSafeInteger : ℕ := 2 ^ 53 - 1

/-- The double nearest to a natural number, ties to the even one; none is infinity. -/
def nearestDouble (n : ℕ) : Option ℕ :=
  let unit := 2 ^ (n.log2 + 1 - 53)
  let quotient := n / unit
  let remainder := n % unit
  let roundsUp := unit < 2 * remainder || (2 * remainder = unit && quotient % 2 = 1)
  let rounded := (if roundsUp then quotient + 1 else quotient) * unit
  if rounded < 2 ^ 1024 then some rounded else none

/-- The decimal number with the fewest significant digits that reads back as a double,
the nearer one of two. -/
def shortestDecimal (double : ℕ) : ℕ :=
  let length := (toString double).length
  let readsBack (n : ℕ) : Bool := nearestDouble n = some double
  let candidate (digits : ℕ) : Option ℕ :=
    let scale := 10 ^ (length - (digits + 1))
    let low := double / scale * scale
    let high := low + scale
    match readsBack low, readsBack high with
    | true, true => some (if double - low ≤ high - double then low else high)
    | true, false => some low
    | false, true => some high
    | false, false => none
  ((List.range 17).findSome? candidate).getD double

/-- A number from `10 ^ 21` on in exponent form. -/
def exponentText (n : ℕ) : String :=
  let digits := (toString n).toList
  let significant := (digits.reverse.dropWhile (· = '0')).reverse
  let fraction := significant.drop 1
  String.ofList (significant.take 1 ++ (if fraction.isEmpty then [] else '.' :: fraction)) ++
    "e+" ++ toString (digits.length - 1)

/-- `String(Number(digits))` for the number a run of digits spells. -/
def numberText (n : ℕ) : String :=
  if n ≤ maxSafeInteger then toString n
  else
    match nearestDouble n with
    | none => "Infinity"
    | some double =>
        let decimal := shortestDecimal double
        if decimal < 10 ^ 21 then toString decimal else exponentText decimal

/-- The number a run of digits spells. -/
def digitsValue (digits : List Char) : ℕ :=
  digits.foldl (fun value c => 10 * value + (c.toNat - 48)) 0

/-! ## The expression -/

/-- `\d`. -/
def isDigit (c : Char) : Bool := 48 ≤ c.toNat && c.toNat ≤ 57

/-- `[0-9A-Za-z]`. -/
def isAlphaNum (c : Char) : Bool :=
  isDigit c || (65 ≤ c.toNat && c.toNat ≤ 90) || (97 ≤ c.toNat && c.toNat ≤ 122)

/-- `[0-9A-Za-z]+(?:\.[0-9A-Za-z]+)*` on a whole text. -/
def isPrereleaseTag (tag : List Char) : Bool :=
  (splitAt '.' tag).all fun identifier => !identifier.isEmpty && identifier.all isAlphaNum

/-- `([~^]?)`. -/
def readOperator : List Char → List Char × List Char
  | '~' :: cs => (['~'], cs)
  | '^' :: cs => (['^'], cs)
  | cs => ([], cs)

/-- `(\d+)`. -/
def readDigits (cs : List Char) : Option (List Char × List Char) :=
  if (cs.takeWhile isDigit).isEmpty then none
  else some (cs.takeWhile isDigit, cs.dropWhile isDigit)

/-- `(\d+|[x*])`. -/
def readPatch : List Char → Option (List Char × List Char)
  | 'x' :: cs => some (['x'], cs)
  | '*' :: cs => some (['*'], cs)
  | cs => readDigits cs

/-- `(?:-([0-9A-Za-z]+(?:\.[0-9A-Za-z]+)*))?$`. -/
def readPrerelease : List Char → Option (Option (List Char))
  | [] => some none
  | '-' :: tag => if isPrereleaseTag tag then some (some tag) else none
  | _ => none

/-- The groups of a match. -/
structure Groups where
  operator : List Char
  major : List Char
  minor : List Char
  patch : Option (List Char)
  prerelease : Option (List Char)
  deriving DecidableEq

/-- What follows the minor number: the end, or a patch and its pre-release tag. -/
def readTail (operator major minor : List Char) : List Char → Option Groups
  | [] => some ⟨operator, major, minor, none, none⟩
  | '.' :: cs =>
      match readPatch cs with
      | none => none
      | some (patch, cs) =>
          (readPrerelease cs).map fun prerelease =>
            ⟨operator, major, minor, some patch, prerelease⟩
  | _ => none

/-- `.match(/^([~^]?)(\d+)\.(\d+)(?:\.(\d+|[x*])(?:-(…))?)?$/)`. -/
def matchSpecifier (specifier : List Char) : Option Groups :=
  let (operator, cs) := readOperator specifier
  match readDigits cs with
  | some (major, '.' :: cs) =>
      match readDigits cs with
      | some (minor, cs) => readTail operator major minor cs
      | none => none
  | _ => none

/-! ## The gate -/

/-- `/^\d+$/`. -/
def isNumber (digits : List Char) : Bool := !digits.isEmpty && digits.all isDigit

/-- The groups that pin one line, and the line. -/
def lineOfGroups (groups : Groups) : Option String :=
  if groups.prerelease.isSome && !isNumber (groups.patch.getD []) then none
  else if !groups.operator.isEmpty &&
      (groups.patch = none || groups.patch = some ['x'] || groups.patch = some ['*']) then none
  else if groups.operator = ['^'] && groups.major ≠ ['0'] then none
  else some (numberText (digitsValue groups.major) ++ "." ++
    numberText (digitsValue groups.minor))

/-- The minor line a specifier pins. -/
def eveLineOfSpecifier : Option String → Option String
  | none => none
  | some specifier => (matchSpecifier (trim specifier.toList)).bind lineOfGroups

/-- `SUPPORTED_EVE_VERSION_RANGES`. -/
def supportedEveVersionRanges : List String := ["1.0.x"]

/-- `SUPPORTED_EVE_VERSION_RANGE`, as the messages name it. -/
def supportedEveVersionRange : String := "1.0.x"

/-- The specifier pins a line of the policy. -/
def isSupportedEveDependency (specifier : Option String) : Bool :=
  match eveLineOfSpecifier specifier with
  | none => false
  | some line => supportedEveVersionRanges.contains (line ++ ".x")

/-- The refusal of a specifier, or of its absence. -/
def unsupportedEveVersionMessage : Option String → String
  | none =>
      "Missing Eve dependency. Eveland requires Eve " ++ supportedEveVersionRange ++
        ". Add the \"eve\" dependency before importing or deploying."
  | some specifier =>
      "Unsupported Eve dependency \"" ++ specifier ++ "\". Eveland requires Eve " ++
        supportedEveVersionRange ++
        ". Upgrade the project's \"eve\" dependency before importing or deploying."

/-! ## Inspecting a project -/

/-- A source file with its normalised path. -/
structure SourceFile where
  path : String
  content : String

/-- `normalizeSourcePath`: forward slashes, and no leading `./`. -/
def normalizeSourcePath (path : String) : String :=
  String.ofList (dropDots (path.toList.map fun c => if c = '\\' then '/' else c))
where
  /-- `replace(/^(\.\/)+/, "")`. -/
  dropDots : List Char → List Char
    | '.' :: '/' :: cs => dropDots cs
    | cs => cs

/-- A root instructions file, or a file of the instructions directory. -/
def isInstructionPath (path root : String) : Bool :=
  path = root ++ "instructions.md" || path = root ++ "instructions.ts" ||
    (root ++ "instructions/").toList.isPrefixOf path.toList

/-- `table?.eve`. -/
def declaredEve (table : Option Json) : Option Json :=
  table.bind (Json.field "eve")

/-- `a ?? b`. -/
def orElse (a b : Option Json) : Option Json :=
  match a with
  | none => b
  | some Json.null => b
  | some value => some value

/-- The `eve` entry of `dependencies`, else of `devDependencies`, trimmed. A document that
does not parse, or is `null`, declares nothing. -/
def readDeclaredEveVersion (parse : String → Option Json) (files : List SourceFile) :
    Option String :=
  match files.find? fun file => file.path = "package.json" with
  | none => none
  | some packageJson =>
      (parse packageJson.content).bind fun parsed =>
        match orElse (declaredEve (parsed.field "dependencies"))
            (declaredEve (parsed.field "devDependencies")) with
        | some (.str version) =>
            if (trim version.toList).isEmpty then none
            else some (String.ofList (trim version.toList))
        | _ => none

/-- The layout a project's instructions are in. -/
inductive Layout
  | nested
  | flat
  | unknown
  deriving DecidableEq

/-- `detectLayout`. -/
def detectLayout (paths : List String) : Layout :=
  if paths.any (isInstructionPath · "agent/") then .nested
  else if paths.any (isInstructionPath · "") then .flat
  else .unknown

/-- What the gate's part of an inspection reports. -/
structure Inspection where
  valid : Bool
  layout : Layout
  eveVersion : Option String
  errors : List String

/-- `inspectEveProject`, as far as its verdict goes. -/
def inspectEveProject (parse : String → Option Json) (files : List SourceFile) : Inspection :=
  let normalized := files.map fun file =>
    { file with path := normalizeSourcePath file.path }
  let paths := normalized.map SourceFile.path
  let layout := detectLayout paths
  let root := if layout = .nested then "agent/" else ""
  let instructions := paths.filter (isInstructionPath · root)
  let eveVersion := readDeclaredEveVersion parse normalized
  let errors :=
    (if layout = .unknown || instructions.isEmpty then
      ["Missing root instructions.md, instructions.ts, or instructions/."] else []) ++
    (if isSupportedEveDependency eveVersion then [] else
      [unsupportedEveVersionMessage eveVersion])
  { valid := errors.isEmpty, layout := layout, eveVersion := eveVersion, errors := errors }

end Eveland.EveCompatibility
