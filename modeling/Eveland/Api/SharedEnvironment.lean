/-
# Edits of the shared Agent environment

`PUT /api/platform/shared-agent-environment`, for any number of requests at a time. A request
reads the stored record, takes from it the values it does not bring, and saves the whole list in
a transaction of its own; then it enqueues the restarts, unless the revision is the one it had
read. A request that finds no record at first inserts one, and goes on with the one that another
has inserted meanwhile.
-/

import Mathlib.Algebra.GroupWithZero.Nat
import Mathlib.Data.List.Basic
import Mathlib.Data.List.Nodup
import Mathlib.Data.List.Sort
import Mathlib.Logic.Function.Basic
import Eveland.Core.JsString
import Eveland.Foundations.Machine

namespace Eveland.SharedEnvironment

/-! ## Entries -/

/-- The `kind` of an entry: `"variable"` or `"secret"`. -/
inductive EntryKind
  | plainVariable
  | secret
  deriving DecidableEq, Repr

/-- A stored entry. -/
structure Entry where
  key : String
  kind : EntryKind
  encryptedValue : String
  deriving DecidableEq, Repr

/-- An entry of a request. `iv` is what the encryption of its value draws. -/
structure EntryInput where
  key : String
  kind : EntryKind
  value : Option String
  iv : String
  deriving DecidableEq, Repr

/-- `sharedAgentEnvironment`: the one row with the key `global`. -/
structure Row where
  revision : ℕ
  entries : List Entry
  deriving DecidableEq, Repr

/-- What the API runs on: the encryption of a value, and how keys compare by
`localeCompare`. -/
structure Platform where
  encryptSecretValue : String → String → String
  localeLe : String → String → Bool
  localeLe_total : ∀ a b, localeLe a b || localeLe b a
  localeLe_trans : ∀ a b c, localeLe a b = true → localeLe b c = true → localeLe a c = true

/-- The length of a string in UTF-16 code units. -/
def utf16Length (value : String) : ℕ :=
  (value.toList.map fun c => if c.toNat < 0x10000 then 1 else 2).sum

/-- `ENVIRONMENT_ENTRY_KEY_PATTERN`. -/
def isEntryKey (key : String) : Bool :=
  match key.toList with
  | [] => false
  | c :: cs => c.isUpper && cs.all fun d => d.isUpper || d.isDigit || d = '_'

/-- `sharedAgentEnvironmentSchema`. -/
def isValidInput (entries : List EntryInput) : Bool :=
  entries.length ≤ 50 &&
    (entries.all fun entry => isEntryKey entry.key &&
      entry.value.all fun value => 1 ≤ utf16Length value && utf16Length value ≤ 65536) &&
    (entries.map EntryInput.key).Nodup

namespace Platform

variable (P : Platform)

/-- `normalizeSharedAgentEnvironmentEntries`, of entries that are well formed. -/
def normalize (entries : List Entry) : List Entry :=
  entries.insertionSort fun left right => P.localeLe left.key right.key = true

/-- `getSharedAgentEnvironmentRecord`. -/
def readRecord (row : Option Row) : Option Row :=
  row.map fun row => { row with entries := P.normalize row.entries }

end Platform

/-- The value that is stored for a key and kind. -/
def storedValue (existing : Option Row) (key : String) (kind : EntryKind) : Option String :=
  (existing.bind fun record =>
    record.entries.find? fun candidate => candidate.key = key && candidate.kind = kind).map
      Entry.encryptedValue

namespace Platform

variable (P : Platform)

/-- An entry of a request with its value: its own, or the one of the record that was read. -/
def resolveEntry (existing : Option Row) (entry : EntryInput) : Option Entry :=
  match entry.value with
  | some value => some ⟨entry.key, entry.kind, P.encryptSecretValue entry.iv value⟩
  | none => (storedValue existing entry.key entry.kind).map fun encryptedValue =>
      ⟨entry.key, entry.kind, encryptedValue⟩

/-- The entries of a request; none where a value is required and there is none. -/
def resolve (existing : Option Row) (entries : List EntryInput) : Option (List Entry) :=
  entries.mapM (P.resolveEntry existing)

/-- `saveSharedAgentEnvironment`, once it holds the row or has inserted it. -/
def save (row : Option Row) (entries : List Entry) : Row :=
  match row with
  | none => { revision := 1, entries := P.normalize entries }
  | some existing =>
      if P.normalize existing.entries = P.normalize entries then existing
      else { revision := existing.revision + 1, entries := P.normalize entries }

/-- A request that is served on its own: the row it leaves, or none where it is rejected. -/
def serve (row : Option Row) (request : List EntryInput) : Option (Option Row) :=
  if isValidInput request then
    (P.resolve (P.readRecord row) request).map fun entries => some (P.save row entries)
  else none

end Platform

/-! ## Requests at once -/

/-- The step a request is at. -/
inductive Phase
  | received
  | rejected
  | saving (existing : Option Row) (entries : List Entry)
  | inserting (existing : Option Row) (entries : List Entry)
  | saved (existing : Option Row) (revision : ℕ) (changed : Bool)
  | answered (changed restarts : Bool)
  deriving DecidableEq, Repr

/-- The request was accepted, and its save is done. -/
def Phase.IsAccepted : Phase → Prop
  | .saved .. | .answered .. => True
  | _ => False

/-- The row, the requests, and the order in which they have saved. -/
structure State (ι : Type*) where
  row : Option Row
  phase : ι → Phase
  order : List ι

section Steps

variable {ι : Type*} [DecidableEq ι] (P : Platform) (request : ι → List EntryInput)

namespace State

variable (s : State ι)

def move (i : ι) (phase : Phase) : State ι :=
  { s with phase := Function.update s.phase i phase }

/-- A request saves its entries; `changed` says that the row is another one afterwards. -/
def saveEntries (i : ι) (existing : Option Row) (entries : List Entry) : State ι :=
  { row := some (P.save s.row entries)
    phase := Function.update s.phase i
      (.saved existing (P.save s.row entries).revision (some (P.save s.row entries) ≠ s.row))
    order := s.order ++ [i] }

end State

/-- The next statement of a request. -/
def step (s : State ι) (i : ι) : Option (State ι) :=
  match s.phase i with
  | .received =>
      if isValidInput (request i) then
        match P.resolve (P.readRecord s.row) (request i) with
        | none => some (s.move i .rejected)
        | some entries => some (s.move i (.saving (P.readRecord s.row) entries))
      else some (s.move i .rejected)
  | .saving existing entries =>
      match s.row with
      | none => some (s.move i (.inserting existing entries))
      | some _ => some (s.saveEntries P i existing entries)
  | .inserting existing entries => some (s.saveEntries P i existing entries)
  | .saved existing revision changed =>
      some (s.move i (.answered changed (revision ≠ (existing.map Row.revision).getD 0)))
  | .rejected => none
  | .answered .. => none

/-- The requests, from any stored row. -/
def machine : Machine (State ι) ι where
  init s := (∀ i, s.phase i = .received) ∧ s.order = []
  step := step P request

/-- The row is the one that the accepted requests leave when they are served one after the
other in some order. -/
def Serialized (start : Option Row) (s : State ι) : Prop :=
  ∃ order : List ι, order.Nodup ∧ (∀ i, i ∈ order ↔ (s.phase i).IsAccepted) ∧
    (order.map request).foldlM P.serve start = some s.row

/-- The entries that are stored. -/
def State.entries (s : State ι) : Option (List Entry) := s.row.map Row.entries

/-- The revision, 0 while there is no row. -/
def State.revision (s : State ι) : ℕ := (s.row.map Row.revision).getD 0

/-- The revision increases by one when the stored entries change, and stays otherwise. -/
def CountsChange (s t : State ι) : Prop :=
  (t.entries ≠ s.entries → t.revision = s.revision + 1) ∧
    (t.entries = s.entries → t.revision = s.revision)

/-- Each request that has changed the entries has enqueued the restarts, once it is
answered. -/
def RestartsEnqueued (s : State ι) : Prop :=
  ∀ i restarts, s.phase i = .answered true restarts → restarts = true

end Steps

end Eveland.SharedEnvironment
