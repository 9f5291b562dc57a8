/-
# The platform's env file

The file is read line by line. A line assigns a key if it is blanks, `export` perhaps, a name, an
equals sign and a value; blanks around the value and a pair of quotes around it do not count. What
the bootstrap renders and what an update writes into the file are lines of the plainest form, with
the value as it is.
-/

import Eveland.Core.JsString

namespace Eveland.EnvFile

open JsString

/-! ## A line -/

/-- `[A-Za-z_]`. -/
def isNameStart (c : Char) : Bool := c.isAlpha || c = '_'

/-- `[A-Za-z0-9_]`. -/
def isNameChar (c : Char) : Bool := c.isAlphanum || c = '_'

/-- What `.` does not match. -/
def isLineTerminator (c : Char) : Bool :=
  [0xA, 0xD, 0x2028, 0x2029].contains c.toNat

/-- What follows `export\s+`. -/
def afterExport (cs : List Char) : Option (List Char) :=
  if "export".toList.isPrefixOf cs then
    match cs.drop "export".length with
    | c :: rest => if isWhitespace c then some (rest.dropWhile isWhitespace) else none
    | [] => none
  else none

/-- `([A-Za-z_][A-Za-z0-9_]*)\s*=`: the name, and what follows. -/
def splitName : List Char → Option (List Char × List Char)
  | [] => none
  | c :: cs =>
      if isNameStart c then
        match (cs.dropWhile isNameChar).dropWhile isWhitespace with
        | '=' :: rest => some (c :: cs.takeWhile isNameChar, rest)
        | _ => none
      else none

/-- `^\s*(?:export\s+)?([A-Za-z_][A-Za-z0-9_]*)\s*=`. -/
def splitLine (line : List Char) : Option (List Char × List Char) :=
  let cs := line.dropWhile isWhitespace
  ((afterExport cs).bind splitName).or (splitName cs)

/-- The value starts and ends with the quote. -/
def isQuoted (quote : Char) (value : List Char) : Bool :=
  value.head? = some quote && value.getLast? = some quote && 2 ≤ value.length

/-- A pair of quotes around the value is dropped. -/
def unquote (value : List Char) : List Char :=
  if isQuoted '"' value || isQuoted '\'' value then value.tail.dropLast else value

/-- The assignment of a line. -/
def parseLine (line : List Char) : Option (List Char × List Char) :=
  (splitLine line).bind fun (key, rest) =>
    if (trim rest).any isLineTerminator then none else some (key, unquote (trim rest))

/-! ## The file -/

/-- The properties of an object, as they were assigned. -/
abbrev Values := List (List Char × List Char)

/-- The value of a property. -/
def Values.get (values : Values) (key : List Char) : Option (List Char) :=
  values.reverse.lookup key

/-- The name under which an object is assigned its prototype. -/
def prototype : List Char := "__proto__".toList

/-- What the lines assign to an empty object; a text is no prototype. -/
def parseLines (lines : List (List Char)) : Values :=
  (lines.filterMap parseLine).filter fun assigned => assigned.1 ≠ prototype

def parseEnvFile (raw : List Char) : Values := parseLines (raw.splitOn '\n')

/-- `${key}=${value}`. -/
def renderLine (key value : List Char) : List Char := key ++ '=' :: value

/-- A name that a line can assign. -/
def isName : List Char → Bool
  | [] => false
  | c :: cs => isNameStart c && cs.all isNameChar

/-- `KEY\s*=`, at the front. -/
def startsWithKey (key cs : List Char) : Bool :=
  key.isPrefixOf cs && ((cs.drop key.length).dropWhile isWhitespace).head? = some '='

/-- `^\s*(?:export\s+)?KEY\s*=`. -/
def namesKey (key line : List Char) : Bool :=
  let cs := line.dropWhile isWhitespace
  (afterExport cs).any (startsWithKey key) || startsWithKey key cs

/-- The lines of the file once the value was put in. -/
def upsertLines (lines : List (List Char)) (key value : List Char) : List (List Char) :=
  match lines.findIdx? (namesKey key) with
  | some index => lines.set index (renderLine key value)
  | none =>
      if lines.getLast? = some [] then lines.dropLast ++ [renderLine key value, []]
      else lines ++ [renderLine key value]

/-- `upsertEnvFileValue`: what is written to the file. -/
def upsertEnvFileValue (raw key value : List Char) : List Char :=
  ['\n'].intercalate (upsertLines (raw.splitOn '\n') key value)

/-! ## First boot -/

inductive HostPlatform
  | darwin
  | linux
  deriving DecidableEq

structure BootstrapInputs where
  publicOrigin : List Char
  adminEmail : List Char
  adminPassword : List Char
  databaseUrl : Option (List Char)
  anthropicApiKey : Option (List Char)
  openaiApiKey : Option (List Char)

/-- What is drawn for an install. -/
structure Drawn where
  gatewayServiceToken : List Char
  appSecretKey : List Char
  authSecret : List Char
  otlpServiceToken : List Char
  affinitySecret : List Char
  schedulerRuntimeSecret : List Char
  schedulerDispatchSecret : List Char

/-- What is derived from URLs and paths. -/
structure Derivations where
  /-- `new URL(publicOrigin).hostname`. -/
  hostname : List Char → List Char
  deriveWorkflowWorldUrl : List Char → List Char
  /-- `path.join(applianceRoot, "data")`. -/
  joinData : List Char → List Char

def POSTGRES_HOST_PORT : String := "17310"

def API_PORT : String := "17301"

/-- `deriveAgentBaseDomains`. -/
def deriveAgentBaseDomains (derive : Derivations) (publicOrigin : List Char) : List Char :=
  let hostname := derive.hostname publicOrigin
  if hostname = "localhost".toList || hostname = "127.0.0.1".toList then "agent.localhost".toList
  else "agent.".toList ++ hostname

/-- The address of the bundled database on a host. -/
def databaseUrlOn (host : String) : List Char :=
  ("postgres://eveland:eveland@" ++ host ++ ":" ++ POSTGRES_HOST_PORT ++ "/eveland").toList

/-- The values that `renderPlatformEnv` renders, in their order. -/
def platformValues (derive : Derivations) (platform : HostPlatform) (applianceRoot : List Char)
    (inputs : BootstrapInputs) (drawn : Drawn) : Values :=
  let bundledDatabaseUrl := databaseUrlOn "127.0.0.1"
  let deploymentHost := if platform = .darwin then "host.docker.internal" else "127.0.0.1"
  [("NODE_ENV", "production".toList),
    ("EVELAND_PUBLIC_ORIGIN", inputs.publicOrigin),
    ("EVELAND_AGENT_BASE_DOMAINS", deriveAgentBaseDomains derive inputs.publicOrigin),
    ("DATABASE_URL", inputs.databaseUrl.getD bundledDatabaseUrl),
    ("EVELAND_WORKFLOW_WORLD_URL",
      derive.deriveWorkflowWorldUrl (inputs.databaseUrl.getD (databaseUrlOn deploymentHost)))].map
      named ++
  (if platform = .darwin && inputs.databaseUrl.isNone then
    [named ("EVELAND_WORKFLOW_WORLD_BOOTSTRAP_URL",
      derive.deriveWorkflowWorldUrl bundledDatabaseUrl)]
  else []) ++
  [("WORKFLOW_DISPATCHER_ACTIVATION_API_URL", ("http://127.0.0.1:" ++ API_PORT).toList),
    ("WORKFLOW_DISPATCHER_ACTIVATION_TOKEN", drawn.gatewayServiceToken),
    ("APP_SECRET_KEY", drawn.appSecretKey),
    ("BETTER_AUTH_SECRET", drawn.authSecret),
    ("EVELAND_ADMIN_EMAIL", inputs.adminEmail),
    ("EVELAND_ADMIN_PASSWORD", inputs.adminPassword),
    ("EVELAND_DATA_DIR", derive.joinData applianceRoot),
    ("EVELAND_OTLP_SERVICE_TOKEN", drawn.otlpServiceToken),
    ("EVELAND_GATEWAY_SERVICE_TOKEN", drawn.gatewayServiceToken),
    ("EVELAND_GATEWAY_AFFINITY_SECRET", drawn.affinitySecret),
    ("EVELAND_SCHEDULER_RUNTIME_SECRET", drawn.schedulerRuntimeSecret),
    ("EVELAND_SCHEDULER_DISPATCH_SECRET", drawn.schedulerDispatchSecret),
    ("EVELAND_SCHEDULER_REDEEM_URL",
      ("http://" ++ deploymentHost ++ ":" ++ API_PORT ++ "/internal/scheduler/dispatch").toList),
    ("EVELAND_RUNTIME", (if platform = .darwin then "docker" else "systemd").toList)].map named ++
  (optional "ANTHROPIC_API_KEY" inputs.anthropicApiKey) ++
  (optional "OPENAI_API_KEY" inputs.openaiApiKey)
where
  named (entry : String × List Char) : List Char × List Char := (entry.1.toList, entry.2)
  /-- A key that is rendered if it has a value. -/
  optional (key : String) (value : Option (List Char)) : Values :=
    match value with
    | some (c :: cs) => [(key.toList, c :: cs)]
    | _ => []

/-- What stands at the top of the file. -/
def preamble : List (List Char) :=
  ["# Rendered by eveland-ctl at first boot. This file is the installation's",
    "# single configuration source: every supervised process receives exactly",
    "# these values. Tuning knobs keep their code defaults and are documented",
    "# in docs/en/reference/environment-variables.md.",
    ""].map String.toList

/-- The file that holds the values. -/
def renderValues (values : Values) : List Char :=
  ['\n'].intercalate (preamble ++ values.map (fun entry => renderLine entry.1 entry.2) ++ [[]])

/-- What `renderPlatformEnv` returns: the file, and its values. -/
structure RenderedConfig where
  content : List Char
  values : Values

def renderPlatformEnv (derive : Derivations) (platform : HostPlatform) (applianceRoot : List Char)
    (inputs : BootstrapInputs) (drawn : Drawn) : RenderedConfig :=
  let values := platformValues derive platform applianceRoot inputs drawn
  { content := renderValues values, values }

end Eveland.EnvFile
