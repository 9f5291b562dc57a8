/-
# The slug of a project

The command line derives a slug from the name it is given, looks for the project that has it, and
creates a project under that name where there is none. The platform derives the slug of a new
project from its name by a rule of its own.

What Unicode says of a text is a parameter, of which only its behaviour on ASCII is used.
-/

import Eveland.Core.JsString
import Eveland.Foundations.Machine
import Eveland.Foundations.Table

namespace Eveland.ProjectSlugs

open JsString (isLowerAlphaNum stripEnds lowerChar)

/-! ## Slugs -/

/-- Unicode's tables, as far as the two rules consult them. -/
structure Unicode where
  /-- `normalize("NFKD")`. -/
  normalizeNFKD : List Char → List Char
  /-- `\p{Diacritic}`. -/
  isDiacritic : Char → Bool
  toLowerCase : List Char → List Char
  normalizeNFKD_ascii : ∀ cs, (∀ c ∈ cs, c.toNat < 128) → normalizeNFKD cs = cs
  isDiacritic_ascii : ∀ c, c.toNat < 128 → isDiacritic c = true → c.toNat = 94 ∨ c.toNat = 96
  toLowerCase_ascii : ∀ cs, (∀ c ∈ cs, c.toNat < 128) → toLowerCase cs = cs.map lowerChar

/-- `PROJECT_SLUG_MAX_LENGTH`. -/
def projectSlugMaxLength : ℕ := 53

/-- Each run of characters of a class becomes one hyphen; `inRun` says that such a run is going
on. -/
def replaceRuns (keep : Char → Bool) : Bool → List Char → List Char
  | _, [] => []
  | inRun, c :: cs =>
      if keep c then c :: replaceRuns keep false cs
      else if inRun then replaceRuns keep true cs
      else '-' :: replaceRuns keep true cs

/-- The hyphens at the end are dropped. -/
def stripTrailing (cs : List Char) : List Char := (cs.reverse.dropWhile (· = '-')).reverse

/-- The steps that both rules end with. -/
def trimSlug (cs : List Char) : List Char :=
  stripTrailing ((stripEnds (· = '-') cs).take projectSlugMaxLength)

/-- `projectSlugFrom`. -/
def projectSlugFrom (U : Unicode) (explicit : Option String) (fallback : String) :
    Except String (List Char) :=
  let source := explicit.getD fallback
  let slug := trimSlug <|
    replaceRuns (fun c => isLowerAlphaNum c || c = '-') false (U.toLowerCase source.toList)
  if slug = [] then .error ("Cannot derive a project slug from '" ++ source ++ "'.") else .ok slug

/-- `slugifyProjectName`. -/
def slugifyProjectName (U : Unicode) (input : List Char) : Except String (List Char) :=
  let slug := trimSlug <|
    replaceRuns isLowerAlphaNum false <|
      U.toLowerCase ((U.normalizeNFKD input).filter fun c => !U.isDiacritic c)
  if slug = [] then .error "Project name must contain at least one ASCII letter or number."
  else .ok slug

/-! ## The platform -/

structure Project where
  id : String
  slug : List Char
  deriving DecidableEq, Repr

/-- The rows of `projects`. -/
structure State where
  projects : List Project
  deriving DecidableEq, Repr

/-- `projectNameSchema`. -/
def isProjectName (name : List Char) : Bool :=
  name.length ≠ 0 && name.length ≤ projectSlugMaxLength &&
    name.all (fun c => isLowerAlphaNum c || c = '-') &&
      name.head?.any isLowerAlphaNum && name.getLast?.any isLowerAlphaNum

/-- `POST /api/projects`, and `createProjectFromSourcePreflight` with the id it draws. -/
def createProject (U : Unicode) (s : State) (name : List Char) (id : String) :
    Option (State × Project) :=
  if isProjectName name ∧ s.projects.all (fun project => project.id ≠ id) then
    match slugifyProjectName U name with
    | .error _ => none
    | .ok slug =>
        -- `projects_slug_unique`
        if s.projects.any fun project => project.slug = slug then none
        else some ({ projects := s.projects ++ [⟨id, slug⟩] }, ⟨id, slug⟩)
  else none

inductive Action
  /-- Anyone creates a project. -/
  | create (name : List Char) (id : String)
  | remove (id : String)

def step (U : Unicode) (s : State) : Action → Option State
  | .create name id => (createProject U s name id).map Prod.fst
  | .remove id => some { projects := s.projects.filter fun project => project.id ≠ id }

/-- The unique indexes of the table. -/
def UniqueSlugs (s : State) : Prop :=
  Table.UniqueOn Project.slug s.projects ∧ Table.UniqueOn Project.id s.projects

def machine (U : Unicode) : Machine State Action where
  init := UniqueSlugs
  step := step U

/-! ## The command line -/

/-- `projects.find((candidate) => candidate.slug === slug)`. -/
def findProject (s : State) (slug : List Char) : Option Project :=
  s.projects.find? fun candidate => candidate.slug = slug

/-- `resolveProject`. -/
def resolveProject (U : Unicode) (s : State) (explicit : Option String) (fallback : String) :
    Option Project :=
  match projectSlugFrom U explicit fallback with
  | .error _ => none
  | .ok slug => findProject s slug

/-- What `runDeploy` comes to: it goes on with a project it has found, or has created, or throws. -/
inductive Deploy
  | found (project : Project)
  | created (project : Project) (s : State)
  | failed
  deriving DecidableEq

/-- `runDeploy`, with the id of a project it creates. -/
def runDeploy (U : Unicode) (s : State) (explicit : Option String) (fallback id : String) :
    Deploy :=
  match projectSlugFrom U explicit fallback with
  | .error _ => .failed
  | .ok slug =>
      match findProject s slug with
      | some existing => .found existing
      | none =>
          match createProject U s slug id with
          | none => .failed
          | some (t, project) => .created project t

/-! ## Agreement -/

/-- The slug that the command line derives is left unchanged by the platform; the project that a
deploy creates has it; and as long as that project is there, a deploy and a resolve under the same
name find it. -/
structure Agrees (U : Unicode) (explicit : Option String) (fallback : String) : Prop where
  unchanged : ∀ slug, projectSlugFrom U explicit fallback = .ok slug →
    slugifyProjectName U slug = .ok slug
  carried : ∀ s t id project slug, projectSlugFrom U explicit fallback = .ok slug →
    runDeploy U s explicit fallback id = .created project t → project.slug = slug
  found : ∀ s t id project, UniqueSlugs s →
    runDeploy U s explicit fallback id = .created project t →
      ∀ actions u, (machine U).exec t actions = some u → project ∈ u.projects →
        resolveProject U u explicit fallback = some project ∧
          ∀ other, runDeploy U u explicit fallback other = .found project

/-- Where the slug still has room, two of its letters or digits are separated once: by one hyphen,
or by other characters among which there is none. `pending` is what the separator has come to, and
`inRun` says that it goes on with other characters. -/
def separatesOnce (room pending : ℕ) (inRun : Bool) : List Char → Bool
  | [] => true
  | c :: cs =>
      if isLowerAlphaNum c then
        room ≤ pending || (pending ≤ 1 && separatesOnce (room - pending - 1) 0 false cs)
      else if c = '-' then separatesOnce room (pending + 1) false cs
      else if inRun then separatesOnce room pending true cs
      else separatesOnce room (pending + 1) true cs

/-- The condition on a name, in lower case and from its first letter or digit on. -/
def NameSeparatesOnce (U : Unicode) (explicit : Option String) (fallback : String) : Prop :=
  separatesOnce projectSlugMaxLength 0 false
    ((U.toLowerCase (explicit.getD fallback).toList).dropWhile fun c => !isLowerAlphaNum c) = true

end Eveland.ProjectSlugs
