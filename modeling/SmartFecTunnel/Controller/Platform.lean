import SmartFecTunnel.Controller.Revision

/-!
Contract: the revision transactions on both platforms of controller.rs.

On Windows `write_pointer` keeps the old pointer under another name while it swaps.
The calls that write the pointer take the platform; on Unix they are the calls of
`Controller.Revision`.

Owns: `write_pointer`, `commit` and `rollback` on a platform, and one call there.

Does not own: the order in which a device writes its blocks.
-/

namespace SmartFecTunnel.Controller

open SmartFecTunnel.Library
open SmartFecTunnel.Library.Io (Ensures)

inductive Platform where
  | unix
  | windows
deriving DecidableEq, Repr

/-- A dot before a name and `.previous` after it. -/
def backupName (name : Text) : Text := '.' :: (name ++ ".previous".toList)

/-- `Path::exists`: a failing look counts as nothing there. -/
def pathExists {ε : Type} (path : List Text) : Io Text ε Bool :=
  ExceptT.mk fun world =>
    match world.faults.head?.join with
    | some _ => (.ok false, ⟨world.files, world.faults.tail⟩)
    | none => (.ok (world.files.lookup path).isSome, ⟨world.files, world.faults.tail⟩)

/-- Removes a backup that is already there. -/
def clearBackup (backup : List Text) : Io Text IoError Unit := do
  if ← pathExists backup then Io.removeFile backup else pure ()

/-- The old pointer is a backup while the new one takes its place. -/
def exchangePointer (temporary backup destination : List Text) : Io Text IoError Unit := do
  Io.rename destination backup
  tryCatch (Io.rename temporary destination) fun error => do
    Io.ignore (Io.rename backup destination)
    throw error
  Io.removeFile backup

/-- The end of `write_pointer` on Windows when there is a pointer. -/
def swapPointer (temporary backup destination : List Text) : Io Text IoError Unit := do
  clearBackup backup
  exchangePointer temporary backup destination

/-- `write_pointer`. -/
def writePointerOn (platform : Platform) (root : List Text) (name revision : Text) :
    Io Text IoError Unit :=
  match platform with
  | .unix => writePointer root name revision
  | .windows => do
    let temporary := joinPath root (temporaryName name)
    let backup := joinPath root (backupName name)
    let destination := joinPath root name
    Io.createNew temporary
    Io.writeAll temporary (utf8 (revision ++ ['\n']))
    Io.syncAll
    if ← pathExists destination then swapPointer temporary backup destination
    else Io.rename temporary destination

namespace RevisionTransaction

def commitOn (platform : Platform) (transaction : RevisionTransaction) :
    Io Text TransactionError RevisionTransaction := do
  transaction.expect .validated
  let committed := joinPath (joinPath transaction.root revisionsName) transaction.revisionId
  io (Io.rename transaction.candidate committed)
  tryCatch (io (writePointerOn platform transaction.root currentName transaction.revisionId))
    fun error => do
      Io.ignore (Io.rename committed transaction.candidate)
      throw error
  pure { transaction with state := .committed }

def rollbackOn (platform : Platform) (transaction : RevisionTransaction) :
    Io Text TransactionError RevisionTransaction := do
  transaction.expect .committed
  match transaction.previous with
  | none => throw .noPreviousRevision
  | some previous =>
    let previousPath := joinPath (joinPath transaction.root revisionsName) previous
    if !(← Io.isDir previousPath) then
      throw .noPreviousRevision
    else
      io (writePointerOn platform transaction.root currentName previous)
      pure { transaction with state := .rolledBack }

theorem commitOn_unix (transaction : RevisionTransaction) :
    transaction.commitOn .unix = transaction.commit := rfl

theorem rollbackOn_unix (transaction : RevisionTransaction) :
    transaction.rollbackOn .unix = transaction.rollback := rfl

end RevisionTransaction

/-- The transaction after a successful call. -/
def Method.programOn (platform : Platform) (transaction : RevisionTransaction) :
    Method → Io Text TransactionError RevisionTransaction
  | .commit => transaction.commitOn platform
  | .rollback => transaction.rollbackOn platform
  | method => method.program transaction

theorem Method.programOn_unix (transaction : RevisionTransaction) (method : Method) :
    method.programOn .unix transaction = method.program transaction := by
  cases method <;> rfl

/-- One call to completion. -/
def stepOn (platform : Platform) (root : List Text) (system : System) (event : Event) :
    Option (System × List Accepted) :=
  match event.call with
  | .begin _ _ _ => step root system event
  | .method index method =>
    match system.transactions[index]? with
    | none => none
    | some transaction =>
      match (method.programOn platform transaction).run ⟨system.files, event.faults⟩ with
      | (.ok next, world) =>
        some (⟨world.files, system.transactions.set index next⟩,
          method.accepts transaction system.files)
      | (.error _, world) => some (⟨world.files, system.transactions⟩, [])

theorem stepOn_unix (root : List Text) (system : System) (event : Event) :
    stepOn .unix root system event = step root system event := by
  unfold stepOn step
  simp only [Method.programOn_unix]
  cases event.call <;> rfl

/-! ### What a call ensures -/

section Rules

variable {platform : Platform} {root : List Text} {system next : System} {event : Event}
  {emitted : List Accepted}

theorem ensures_pathExists {ε : Type} (path : List Text) (files : FileSystem Text)
    (bad : ε → FileSystem Text → Prop) :
    Ensures (pathExists path : Io Text ε Bool) files (fun _ after => after = files) bad := by
  intro faults
  simp only [pathExists, ExceptT.run_mk]
  cases faults.head?.join with
  | some fault => rfl
  | none => rfl

/-- A method changes the state of its transaction and nothing else of it. -/
theorem ensures_state (platform : Platform) (transaction : RevisionTransaction)
    (method : Method) (files : FileSystem Text) :
    Ensures (method.programOn platform transaction) files
      (fun next _ => ∃ state, next = { transaction with state }) fun _ _ => True := by
  cases method with
  | stage artifactName bytes =>
      apply (Io.ensures_trivial _ files).bind
      exact fun _ _ _ => Io.ensures_pure ⟨transaction.state, rfl⟩
  | validate validator =>
      apply (Io.ensures_trivial _ files).bind
      intro _ after _
      apply (Io.ensures_trivial _ after).bind
      intro tree last _
      split
      · exact Io.ensures_throw trivial
      · exact Io.ensures_pure ⟨.validated, rfl⟩
  | commit =>
      apply (Io.ensures_trivial _ files).bind
      intro _ after _
      apply (Io.ensures_trivial _ after).bind
      intro _ moved _
      apply (Io.ensures_trivial _ moved).bind
      exact fun _ _ _ => Io.ensures_pure ⟨.committed, rfl⟩
  | rollback =>
      apply (Io.ensures_trivial _ files).bind
      intro _ after _
      cases transaction.previous with
      | none => exact Io.ensures_throw trivial
      | some previous =>
          apply (Io.ensures_trivial _ after).bind
          intro there looked _
          split
          · exact Io.ensures_throw trivial
          · apply (Io.ensures_trivial _ looked).bind
            exact fun _ _ _ => Io.ensures_pure ⟨.rolledBack, rfl⟩

/-- What a call ensures holds after the step that makes it. -/
theorem stepOn_ensures {post : System → List Accepted → Prop}
    (stepped : stepOn platform root system event = some (next, emitted))
    (onBegin : ∀ previous clock process, event.call = .begin previous clock process →
      Ensures (RevisionTransaction.begin root previous clock process) system.files
        (fun transaction after => post ⟨after, system.transactions ++ [transaction]⟩ [])
        fun _ after => post ⟨after, system.transactions⟩ [])
    (onMethod : ∀ index method transaction, event.call = .method index method →
      system.transactions[index]? = some transaction →
      Ensures (method.programOn platform transaction) system.files
        (fun advanced after => post ⟨after, system.transactions.set index advanced⟩
          (method.accepts transaction system.files))
        fun _ after => post ⟨after, system.transactions⟩ []) :
    post next emitted := by
  unfold stepOn at stepped
  cases isCall : event.call with
  | begin previous clock process =>
      have begun := onBegin previous clock process isCall event.faults
      simp only [isCall, step] at stepped
      cases ran : (RevisionTransaction.begin root previous clock process).run
          ⟨system.files, event.faults⟩ with
      | mk result world =>
          rw [ran] at begun stepped
          cases result with
          | ok transaction =>
              cases stepped
              exact begun
          | error error =>
              cases stepped
              exact begun
  | method index method =>
      simp only [isCall] at stepped
      cases found : system.transactions[index]? with
      | none =>
          rw [found] at stepped
          cases stepped
      | some transaction =>
          have called := onMethod index method transaction isCall found event.faults
          simp only [found] at stepped
          cases ran : (method.programOn platform transaction).run ⟨system.files, event.faults⟩ with
          | mk result world =>
              rw [ran] at called stepped
              cases result with
              | ok advanced =>
                  cases stepped
                  exact called
              | error error =>
                  cases stepped
                  exact called

end Rules

end SmartFecTunnel.Controller
