/-
# The memory backend

Calls of `evelandMemoryBackend` on one key, one file-system step at a time. A write takes the lock
file by creating it exclusively, reads the document, compares the version, replaces the document
by a rename and removes whatever lock file is at the path. A call that finds the lock file taken
looks at its age, and moves one away that is older than the limit. A call can stall anywhere, be
aborted by its signal where the code looks at it, and crash at any step.

The log has the replacements in their order, newest first, with what they were based on and what
they found.
-/

import Mathlib.Algebra.GroupWithZero.Nat
import Mathlib.Data.Int.Notation
import Mathlib.Data.List.Nodup
import Mathlib.Logic.Function.Basic
import Eveland.Foundations.Machine

namespace Eveland.Memory

/-! ## Files -/

/-- A document. Its version is written in decimal. -/
structure Document where
  content : String
  version : ℕ
  deriving DecidableEq, Repr

/-- The lock file, and the call that has created it. -/
structure LockFile (ι : Type*) where
  mtime : ℤ
  owner : ι

/-- `LOCK_STALE_MS`. -/
def lockStaleMs : ℤ := 10000

/-- The number from which `Number(version) + 1` is rounded back. -/
def maxVersion : ℕ := 2 ^ 53

/-- `bumpVersion`. A version never grows past the number whose successor is rounded back to
it. -/
def bumpVersion (version : ℕ) : ℕ := if version < maxVersion then version + 1 else version

/-- What a call compares with the version it expects. -/
def versionOf (document : Option Document) : Option String :=
  document.map fun current => toString current.version

/-- The document that a write puts in the place of the one it has read. -/
def nextDocument (current : Option Document) (content : String) : Document :=
  match current with
  | none => { content, version := 1 }
  | some document => { content, version := bumpVersion document.version }

/-! ## Calls -/

/-- `read` or `write`. -/
inductive Call
  | read
  | write (content : String) (expectedVersion : Option String)
  deriving DecidableEq, Repr

/-- The step a call is at. -/
inductive Phase
  | waiting
  | opening
  | stating
  | judging (heldSince : ℤ)
  | delaying
  | renamingLock
  | discarding
  | reading
  | writingTemp (next : Document)
  | renamingTemp (next : Document)
  | releasing (result : Option Document)
  | succeeded (document : Document)
  | failed
  | returned (document : Option Document)
  | crashed
  deriving DecidableEq, Repr

/-- The call is between its exclusive create and its rename of the document. -/
def Phase.isCritical : Phase → Bool
  | .reading | .writingTemp _ | .renamingTemp _ => true
  | _ => false

/-- The call is over. -/
def Phase.isOver : Phase → Bool
  | .succeeded _ | .failed | .returned _ | .crashed => true
  | _ => false

/-- A replacement of the document: the version the write expected, the document it found in the
place, and the one it put there. -/
structure Replacement (ι : Type*) where
  writer : ι
  expected : Option String
  before : Option Document
  next : Document

/-- The files of the key, the calls, and what was replaced and read. -/
structure State (ι : Type*) where
  clock : ℤ
  lock : Option (LockFile ι)
  document : Option Document
  phase : ι → Phase
  log : List (Replacement ι)
  reads : List (Option Document)

/-- A call makes its next step, is aborted or crashes; or time passes. -/
inductive Action (ι : Type*)
  | next (i : ι)
  | abort (i : ι)
  | crash (i : ι)
  | pass (ms : ℕ)

section Steps

variable {ι : Type*} [DecidableEq ι] (call : ι → Call)

namespace State

variable (s : State ι)

def move (i : ι) (phase : Phase) : State ι :=
  { s with phase := Function.update s.phase i phase }

/-- The lock file is gone from its path. -/
def unlock : State ι := { s with lock := none }

/-- `rename` of the temporary file onto the document. -/
def replace (i : ι) (expected : Option String) (next : Document) : State ι :=
  { s with
    document := some next
    log := { writer := i, expected, before := s.document, next } :: s.log }

end State

/-- The version a write expects. -/
def Call.expectedVersion : Call → Option String
  | .read => none
  | .write _ expectedVersion => expectedVersion

/-- A write at the document: a conflict, or the document to put in its place. -/
def Call.afterRead (document : Option Document) : Call → Phase
  | .read => .releasing none
  | .write content expectedVersion =>
      if versionOf document = expectedVersion then .writingTemp (nextDocument document content)
      else .releasing none

/-- The next step of a call. -/
def next (s : State ι) (i : ι) : Option (State ι) :=
  match s.phase i with
  | .waiting =>
      match call i with
      | .read => some { s.move i (.returned s.document) with reads := s.document :: s.reads }
      | .write _ _ => some (s.move i .opening)
  | .opening =>
      match s.lock with
      | none => some { s.move i .reading with lock := some { mtime := s.clock, owner := i } }
      | some _ => some (s.move i .stating)
  | .stating =>
      match s.lock with
      | none => some (s.move i .opening)
      | some lock => some (s.move i (.judging lock.mtime))
  | .judging heldSince =>
      if s.clock - heldSince > lockStaleMs then some (s.move i .renamingLock)
      else some (s.move i .delaying)
  | .delaying => some (s.move i .opening)
  | .renamingLock =>
      match s.lock with
      | none => some (s.move i .opening)
      | some _ => some (s.unlock.move i .discarding)
  | .discarding => some (s.move i .opening)
  | .reading => some (s.move i ((call i).afterRead s.document))
  | .writingTemp document => some (s.move i (.renamingTemp document))
  | .renamingTemp document =>
      some ((s.replace i (call i).expectedVersion document).move i (.releasing (some document)))
  | .releasing result =>
      some (s.unlock.move i
        (match result with
        | some document => .succeeded document
        | none => .failed))
  | .succeeded _ | .failed | .returned _ | .crashed => none

/-- The signal of a call is looked at: before an attempt at the lock, while waiting, and by the
read and the write of a file. Under the lock the call goes on to the release. -/
def abort (s : State ι) (i : ι) : Option (State ι) :=
  match s.phase i with
  | .waiting | .opening | .delaying => some (s.move i .failed)
  | .reading | .writingTemp _ => some (s.move i (.releasing none))
  | _ => none

def step (s : State ι) : Action ι → Option (State ι)
  | .next i => next call s i
  | .abort i => abort s i
  | .crash i => if (s.phase i).isOver then none else some (s.move i .crashed)
  | .pass ms => some { s with clock := s.clock + ms }

/-- The calls, from a document that the backend has written, or none, and any lock file that was
left behind. -/
structure Initial (s : State ι) : Prop where
  version : ∀ document, s.document = some document → 1 ≤ document.version
  phase : ∀ i, s.phase i = .waiting
  log : s.log = []
  reads : s.reads = []

def machine : Machine (State ι) (Action ι) where
  init := Initial
  step := step call

/-! ## Chains -/

/-- The replacements lead from one document to the other, each starting at what the one before
has put there. -/
def Linked (start : Option Document) : List (Replacement ι) → Option Document → Prop
  | [], document => document = start
  | replacement :: older, document =>
      document = some replacement.next ∧ Linked start older replacement.before

/-- The writes form a single chain from the first document on, and the reads are of it. -/
structure SingleChain (start : Option Document) (s : State ι) : Prop where
  /-- The replacements follow each other to the stored document. -/
  linked : Linked start s.log s.document
  /-- Each was based on the version that was stored just before it. -/
  expected : ∀ replacement ∈ s.log, replacement.expected = versionOf replacement.before
  /-- Versions never repeat. -/
  versions : ((s.log.map Replacement.next ++ start.toList).map Document.version).Nodup
  /-- Every read has returned null or a document of the chain. -/
  reads : ∀ document, some document ∈ s.reads →
    document ∈ s.log.map Replacement.next ++ start.toList
  /-- A write that succeeds is a replacement. -/
  succeeded : ∀ i document, s.phase i = .succeeded document →
    ∃ replacement ∈ s.log, replacement.writer = i ∧ replacement.next = document
  /-- A write that fails has replaced nothing. -/
  failed : ∀ i, s.phase i = .failed → ∀ replacement ∈ s.log, replacement.writer ≠ i

end Steps

end Eveland.Memory
