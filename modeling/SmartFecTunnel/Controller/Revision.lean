import SmartFecTunnel.Library.FileSystem
import SmartFecTunnel.Library.PathName
import SmartFecTunnel.Library.Run

/-!
Contract: the revision transactions of the product controller (controller.rs).

A transaction fills a candidate directory, has it validated, moves it under
`revisions` and points `current` at it.  Every method is a program over the file
system, so any of its file operations may fail.  A method that fails leaves its
transaction as it was: the new state is assigned last.

Owns: `begin`, `stage`, `validate`, `commit` and `rollback` with the Unix branch
of `write_pointer`, and runs of such calls on any number of transactions.

Does not own: the planner, and what a validator looks at.
-/

namespace SmartFecTunnel.Controller

open SmartFecTunnel.Library

inductive TransactionState where
  | candidate
  | validated
  | committed
  | rolledBack
deriving DecidableEq, Repr

inductive TransactionError where
  | io (error : IoError)
  | invalidState (expected actual : TransactionState)
  | invalidArtifactName
  | validation (reason : Text)
  | noPreviousRevision
deriving DecidableEq, Repr

structure RevisionTransaction where
  root : List Text
  candidate : List Text
  previous : Option Text
  revisionId : Text
  state : TransactionState
deriving DecidableEq, Repr

/-- `CandidateValidator::validate`, as a function of the tree it reads. -/
abbrev CandidateValidator := FileSystem Text → List Text → Except Text Unit

/-- An I/O error of a transaction. -/
def io {α : Type} (program : Io Text IoError α) : Io Text TransactionError α :=
  ExceptT.adapt TransactionError.io program

def isPlainFileName (value : Text) : Bool :=
  value ≠ [] ∧ (components value).length = 1 ∧
    (match (components value).head? with
      | some (.normal _) => true
      | _ => false) = true

/-- The name of the pointer. -/
def currentName : Text := "current".toList

def candidatesName : Text := "candidates".toList

def revisionsName : Text := "revisions".toList

/-- A dot before a name and `.tmp` after it. -/
def temporaryName (name : Text) : Text := '.' :: (name ++ ".tmp".toList)

/-- The revision id of a time since the epoch and a process. -/
def revisionName (nanos process : Nat) : Text :=
  "rev-".toList ++ Nat.toDigits 10 nanos ++ "-".toList ++ Nat.toDigits 10 process

/-- `write_pointer`, where a rename replaces an existing file.  A failure leaves the
temporary file behind. -/
def writePointer (root : List Text) (name revision : Text) : Io Text IoError Unit := do
  let temporary := joinPath root (temporaryName name)
  let destination := joinPath root name
  Io.createNew temporary
  Io.writeAll temporary (utf8 (revision ++ ['\n']))
  Io.syncAll
  Io.rename temporary destination

namespace RevisionTransaction

/-- `begin`.  A clock before the epoch is `none`. -/
def begin (root : List Text) (previous : Option Text) (clock : Option Nat) (process : Nat) :
    Io Text TransactionError RevisionTransaction := do
  if previous.any fun value => !isPlainFileName value then
    throw .invalidArtifactName
  else
    io (Io.createDirAll (joinPath root candidatesName))
    io (Io.createDirAll (joinPath root revisionsName))
    match clock with
    | none => throw (.io .invalidData)
    | some nanos =>
      let revisionId := revisionName nanos process
      let candidate := joinPath (joinPath root candidatesName) revisionId
      io (Io.createDir candidate)
      pure { root, candidate, previous, revisionId, state := .candidate }

def expect (transaction : RevisionTransaction) (expected : TransactionState) :
    Io Text TransactionError Unit :=
  if transaction.state = expected then pure ()
  else throw (.invalidState expected transaction.state)

def stage (transaction : RevisionTransaction) (artifactName : Text) (bytes : Bytes) :
    Io Text TransactionError Unit := do
  transaction.expect .candidate
  if !isPlainFileName artifactName then
    throw .invalidArtifactName
  else
    let path := joinPath transaction.candidate artifactName
    let temporary := joinPath transaction.candidate (temporaryName artifactName)
    io (Io.createNew temporary)
    tryCatch (io (Io.writeAll temporary bytes >>= fun _ => Io.syncAll)) fun error => do
      Io.ignore (Io.removeFile temporary)
      throw error
    tryCatch (io (Io.rename temporary path)) fun error => do
      Io.ignore (Io.removeFile temporary)
      throw error

def validate (transaction : RevisionTransaction) (validator : CandidateValidator) :
    Io Text TransactionError RevisionTransaction := do
  transaction.expect .candidate
  match validator (← Io.readTree) transaction.candidate with
  | .error reason => throw (.validation reason)
  | .ok () => pure { transaction with state := .validated }

def commit (transaction : RevisionTransaction) :
    Io Text TransactionError RevisionTransaction := do
  transaction.expect .validated
  let committed := joinPath (joinPath transaction.root revisionsName) transaction.revisionId
  io (Io.rename transaction.candidate committed)
  tryCatch (io (writePointer transaction.root currentName transaction.revisionId)) fun error => do
    Io.ignore (Io.rename committed transaction.candidate)
    throw error
  pure { transaction with state := .committed }

def rollback (transaction : RevisionTransaction) :
    Io Text TransactionError RevisionTransaction := do
  transaction.expect .committed
  match transaction.previous with
  | none => throw .noPreviousRevision
  | some previous =>
    let previousPath := joinPath (joinPath transaction.root revisionsName) previous
    if !(← Io.isDir previousPath) then
      throw .noPreviousRevision
    else
      io (writePointer transaction.root currentName previous)
      pure { transaction with state := .rolledBack }

end RevisionTransaction

/-! ### Runs -/

/-- A method on a transaction. -/
inductive Method where
  | stage (artifactName : Text) (bytes : Bytes)
  | validate (validator : CandidateValidator)
  | commit
  | rollback

/-- The transaction after a successful call. -/
def Method.program (transaction : RevisionTransaction) :
    Method → Io Text TransactionError RevisionTransaction
  | .stage artifactName bytes => do
    transaction.stage artifactName bytes
    pure transaction
  | .validate validator => transaction.validate validator
  | .commit => transaction.commit
  | .rollback => transaction.rollback

inductive Call where
  | begin (previous : Option Text) (clock : Option Nat) (process : Nat)
  | method (index : Nat) (method : Method)

/-- A call, and which of its file operations fail. -/
structure Event where
  call : Call
  faults : List (Option Fault)

/-- The tree and the transactions begun so far. -/
structure System where
  files : FileSystem Text
  transactions : List RevisionTransaction

/-- What a validator accepted: the revision, and what was below its candidate directory. -/
structure Accepted where
  revision : Text
  artifacts : List Text → Option Node

/-- What a validator of this transaction gets to see. -/
def RevisionTransaction.snapshot (transaction : RevisionTransaction) (files : FileSystem Text) :
    Accepted :=
  ⟨transaction.revisionId, fun path => files.lookup (transaction.candidate ++ path)⟩

/-- What a successful call has had accepted. -/
def Method.accepts (transaction : RevisionTransaction) (files : FileSystem Text) :
    Method → List Accepted
  | .validate _ => [transaction.snapshot files]
  | _ => []

/-- One call to completion.  A method needs a transaction that was begun. -/
def step (root : List Text) (system : System) (event : Event) :
    Option (System × List Accepted) :=
  match event.call with
  | .begin previous clock process =>
    match (RevisionTransaction.begin root previous clock process).run
        ⟨system.files, event.faults⟩ with
    | (.ok transaction, world) =>
      some (⟨world.files, system.transactions ++ [transaction]⟩, [])
    | (.error _, world) => some (⟨world.files, system.transactions⟩, [])
  | .method index method =>
    match system.transactions[index]? with
    | none => none
    | some transaction =>
      match (method.program transaction).run ⟨system.files, event.faults⟩ with
      | (.ok next, world) =>
        some (⟨world.files, system.transactions.set index next⟩,
          method.accepts transaction system.files)
      | (.error _, world) => some (⟨world.files, system.transactions⟩, [])

end SmartFecTunnel.Controller
