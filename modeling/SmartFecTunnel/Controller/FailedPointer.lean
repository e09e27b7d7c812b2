import SmartFecTunnel.Controller.PreparedRuns

/-!
Contract: what one failing file operation does to a commit (controller.rs).

A commit moves the candidate directory under `revisions`, writes the pointer, and moves
the directory back when the write fails.  The write leaves its temporary file behind, and
on Windows the new pointer may be there although the write fails.

Owns:
- when a failed commit leaves everything as it was, so that it can be repeated;
- the operations whose failure is harmless.

Does not own: two failures in one call.
-/

namespace SmartFecTunnel.Controller

open SmartFecTunnel.Library
open SmartFecTunnel.Library.Io (Succeeds)

/-! ### The move back -/

section Compensation

variable {platform : Platform} {root : List Text} {files moved written : FileSystem Text}
  {transaction : RevisionTransaction} {line : Text}

/-- The candidate directory back in its place. -/
def movedBack (root : List Text) (id : Text) (files : FileSystem Text) : FileSystem Text :=
  files.relocate (root ++ (Place.revision id []).path) (root ++ (Place.candidate id []).path)

theorem entry_movedBack (id name : Text) :
    entry root (movedBack root id written) name = entry root written name :=
  entry_relocate_deep rfl rfl

theorem Prepared.candidates_moved (prepared : Prepared root files transaction)
    (isMoved : CandidateMoved root transaction files moved) :
    view root moved .candidates = some .directory :=
  (isMoved.entry candidatesName).trans prepared.candidates

/-- The renaming back succeeds, whatever has become of the pointer. -/
theorem Prepared.run_back (prepared : Prepared root files transaction)
    (isMoved : CandidateMoved root transaction files moved)
    (elsewhere : Elsewhere root moved written) :
    (Io.rename (root ++ (Place.revision transaction.revisionId []).path)
        (root ++ (Place.candidate transaction.revisionId []).path)).run ⟨written, []⟩ =
      (.ok (), ⟨movedBack root transaction.revisionId written, []⟩) := by
  obtain ⟨⟨node, isCandidate⟩, isRelocated⟩ := isMoved.relocated
  have moves : Moves root (.candidate transaction.revisionId) (.revision transaction.revisionId)
      files moved := by
    rw [isRelocated]
    exact moves_relocate (fun _ => rfl) (fun _ => rfl) fun _ _ same => by cases same
  have isRevision : view root written (.revision transaction.revisionId []) = some node := by
    rw [elsewhere.revision, moves.arrived, isCandidate]
  have isDirectory : view root written .candidates = some .directory := by
    rw [elsewhere.candidates, prepared.candidates_moved isMoved]
  have vacant : view root written (.candidate transaction.revisionId []) = none := by
    rw [elsewhere.candidate, moves.left]
  apply Io.run_operation _ rfl
  have names := Place.candidate_path root transaction.revisionId
  rw [movedBack, names]
  apply FileSystem.rename_vacant isRevision isDirectory
  · rw [← names, List.prefix_append_right_inj]
    intro inside
    exact Place.names_ne.1.1 (List.cons_prefix_cons.mp inside).1.symm
  · rw [← names]
    exact vacant

/-- A tree that is moved back differs at the pointer only. -/
theorem Prepared.elsewhere_back (prepared : Prepared root files transaction)
    (isMoved : CandidateMoved root transaction files moved)
    (elsewhere : Elsewhere root moved written) :
    Elsewhere root files (movedBack root transaction.revisionId written) := by
  intro path outside
  have isRelocated := isMoved.relocated.2
  have deep : ∀ (place : Place) (rest : List Text), root ++ place.path ++ rest =
      root ++ (place.path ++ rest) := fun _ _ => List.append_assoc _ _ _
  by_cases inCandidate : root ++ (Place.candidate transaction.revisionId []).path <+: path
  · obtain ⟨rest, rfl⟩ := inCandidate
    calc (movedBack root transaction.revisionId written).lookup
            (root ++ (Place.candidate transaction.revisionId []).path ++ rest)
        = written.lookup (root ++ (Place.revision transaction.revisionId []).path ++ rest) :=
          FileSystem.lookup_relocate_target _ _ rest written
      _ = moved.lookup (root ++ (Place.revision transaction.revisionId []).path ++ rest) := by
          rw [deep]
          exact elsewhere.revision rest
      _ = files.lookup (root ++ (Place.candidate transaction.revisionId []).path ++ rest) := by
          rw [isRelocated]
          exact FileSystem.lookup_relocate_target _ _ rest files
  · by_cases inRevision : root ++ (Place.revision transaction.revisionId []).path <+: path
    · have left : (movedBack root transaction.revisionId written).lookup path = none :=
        FileSystem.lookup_relocate_source inCandidate inRevision written
      obtain ⟨rest, rfl⟩ := inRevision
      rw [left, deep]
      exact (prepared.vacant rest).symm
    · calc (movedBack root transaction.revisionId written).lookup path
          = written.lookup path := FileSystem.lookup_relocate_of_not inCandidate inRevision written
        _ = moved.lookup path := elsewhere path outside
        _ = files.lookup path := by
            rw [isRelocated]
            exact FileSystem.lookup_relocate_of_not inRevision inCandidate files

/-! ### What a failing operation of a commit leaves -/

/-- The file operations of a commit. -/
inductive CommitOperation where
  | move
  | pointer (operation : Operation)
deriving DecidableEq, Repr

/-- The operations of `commit`, when none fails. -/
def commitOperations (platform : Platform) (root : List Text) (files : FileSystem Text) :
    List CommitOperation :=
  .move :: (pointerOperations platform root files).map .pointer

/-- What the failure of an operation leaves. -/
def CommitLeaves (root : List Text) (line : Text) (files : FileSystem Text) :
    Option CommitOperation → Except TransactionError RevisionTransaction × World Text → Prop
  | none, result => result.1.isOk = true
  | some (.pointer .look), result => result.1.isOk = true
  | some .move, result => result.1.isOk = false ∧ Intact root files result.2.files
  | some (.pointer .create), result => result.1.isOk = false ∧ Intact root files result.2.files
  | some (.pointer .forget), result =>
    result.1.isOk = false ∧ Swapped root line files result.2.files
  | some (.pointer _), result =>
    result.1.isOk = false ∧ entry root result.2.files (temporaryName currentName) ≠ none

theorem CandidateMoved.operations (isMoved : CandidateMoved root transaction files moved) :
    pointerOperations platform root moved = pointerOperations platform root files := by
  simp [pointerOperations, swapOperations, isMoved.entry]

/-- The renaming back leaves the entries of the root, whether it succeeds or not. -/
theorem entry_compensated (id name : Text) (world : World Text) :
    entry root ((Io.rename (root ++ (Place.revision id []).path)
        (root ++ (Place.candidate id []).path)).run world).2.files name =
      entry root world.files name := by
  have done := Io.ensures_atomic (FileSystem.rename (root ++ (Place.revision id []).path)
    (root ++ (Place.candidate id []).path)) world.files world.faults
  unfold Io.rename
  cases ran : (Io.operation (FileSystem.rename (root ++ (Place.revision id []).path)
      (root ++ (Place.candidate id []).path)) fun _ files => files).run world with
  | mk result after =>
      rw [ran] at done
      cases result with
      | error error =>
          change after.files = world.files at done
          rw [done]
      | ok value =>
          have different : root ++ (Place.revision id []).path ≠
              root ++ (Place.candidate id []).path := by
            intro same
            cases Place.path_injective (List.append_cancel_left same)
          rw [(FileSystem.rename_relocates done different).2]
          exact entry_relocate_deep rfl rfl

/-- A failed commit, from what its pointer write has left. -/
theorem Prepared.leaves_compensated (prepared : Prepared root files transaction)
    (isMoved : CandidateMoved root transaction files moved)
    (ready : PointerReady platform root files) {operation : Option Operation} {error : IoError}
    {world : World Text}
    (leaves : Leaves root transaction.revisionId moved operation (.error error, world)) :
    CommitLeaves root transaction.revisionId files (operation.map .pointer)
      (.error (.io error),
        ((Io.rename (root ++ (Place.revision transaction.revisionId []).path)
          (root ++ (Place.candidate transaction.revisionId []).path)).run world).2) := by
  have entries := fun name => @entry_compensated root transaction.revisionId name world
  have spoilt : entry root world.files (temporaryName currentName) ≠ none →
      (Except.error (TransactionError.io error) :
          Except TransactionError RevisionTransaction).isOk = false ∧
        entry root ((Io.rename (root ++ (Place.revision transaction.revisionId []).path)
          (root ++ (Place.candidate transaction.revisionId []).path)).run world).2.files
            (temporaryName currentName) ≠ none := by
    intro present
    rw [entries]
    exact ⟨rfl, present⟩
  cases operation with
  | none => cases leaves
  | some operation =>
      cases operation with
      | look => cases leaves
      | create =>
          obtain ⟨_, same⟩ := leaves
          change world = _ at same
          subst same
          refine ⟨rfl, ?_⟩
          rw [prepared.run_back isMoved (Elsewhere.refl moved)]
          constructor
          · exact prepared.elsewhere_back isMoved (Elsewhere.refl moved)
          · rw [entry_movedBack, isMoved.entry, ready.clean]
          · rw [entry_movedBack, isMoved.entry]
          · rw [entry_movedBack, isMoved.entry]
            exact Or.inr rfl
      | forget =>
          obtain ⟨_, noFaults, swapped⟩ := leaves
          obtain ⟨written, faults⟩ := world
          change faults = [] at noFaults
          subst noFaults
          refine ⟨rfl, ?_⟩
          rw [prepared.run_back isMoved swapped.elsewhere]
          constructor
          · exact prepared.elsewhere_back isMoved swapped.elsewhere
          · exact (entry_movedBack _ _).trans swapped.clean
          · exact (entry_movedBack _ _).trans swapped.pointer
          · obtain ⟨content, isBackup⟩ := swapped.backup
            exact ⟨content, (entry_movedBack _ _).trans isBackup⟩
      | write => exact spoilt leaves.2.2
      | sync => exact spoilt leaves.2.2
      | clear => exact spoilt leaves.2.2
      | keep => exact spoilt leaves.2.2
      | replace => exact spoilt leaves.2.2

/-- Whatever operation of a commit fails, it leaves what `CommitLeaves` says. -/
theorem Prepared.commit_leaves (prepared : Prepared root files transaction)
    (succeeds : Succeeds (transaction.commitOn platform) files) (position : Nat) (fault : Fault) :
    CommitLeaves root transaction.revisionId files
      (commitOperations platform root files)[position]?
      ((transaction.commitOn platform).run ⟨files, onlyFault position fault⟩) := by
  obtain ⟨validated, ⟨moved, isMoved⟩, ready⟩ :=
    (succeeds_commitOn_iff prepared.named).mp succeeds
  cases position with
  | zero =>
      have refused : (transaction.commitOn platform).run ⟨files, [some fault]⟩ =
          (.error (.io fault.error), ⟨files, []⟩) := by
        unfold RevisionTransaction.commitOn
        rw [expect_bind, if_pos validated, Io.run_bind, io, Io.run_adapt]
        rfl
      rw [onlyFault_zero, refused]
      exact ⟨rfl, Elsewhere.refl files, ready.clean, rfl, Or.inr rfl⟩
  | succ position =>
      have leaves := ((isMoved.ready_iff.mpr ready).traced transaction.revisionId).disturbed
        position fault
      rw [onlyFault_succ, run_commitOn prepared.named validated isMoved rfl, List.tail_cons,
        commitOperations, List.getElem?_cons_succ, List.getElem?_map, ← isMoved.operations]
      cases ran : (writePointerOn platform root currentName transaction.revisionId).run
          ⟨moved, onlyFault position fault⟩ with
      | mk result world =>
          rw [ran] at leaves
          cases result with
          | error error => exact prepared.leaves_compensated isMoved ready leaves
          | ok value =>
              obtain ends | looks := leaves.of_ok
              · rw [ends]
                rfl
              · rw [looks]
                rfl

end Compensation

/-! ### Failures that are harmless -/

/-- Nothing of an operation's failure remains when the pointer already was the new one, or,
without that, at all. -/
def Operation.Spares (already : Prop) : Operation → Prop
  | .create => True
  | .look => True
  | .forget => already
  | _ => False

def CommitOperation.Spares (already : Prop) : CommitOperation → Prop
  | .move => True
  | .pointer operation => operation.Spares already

/-- The pointer is as before, and there is no temporary file. -/
structure PointerKept (root : List Text) (files after : FileSystem Text) : Prop where
  pointer : entry root after currentName = entry root files currentName
  clean : entry root after (temporaryName currentName) = none

/-- The pointer and the candidate directory are as before, and every commit or rollback that
would have succeeded before succeeds now. -/
structure Harmless (platform : Platform) (root : List Text) (files after : FileSystem Text)
    (transaction : RevisionTransaction) : Prop where
  kept : PointerKept root files after
  candidate : ∀ path, view root after (.candidate transaction.revisionId path) =
    view root files (.candidate transaction.revisionId path)
  retry : ∀ (other : RevisionTransaction) (method : Method), Named root other →
    method = .commit ∨ method = .rollback →
    Succeeds (method.programOn platform other) files →
    Succeeds (method.programOn platform other) after

section Harmless

variable {platform : Platform} {root : List Text} {files after : FileSystem Text}
  {transaction : RevisionTransaction} {line : Text}

theorem Swapped.intact (swapped : Swapped root line files after)
    (already : entry root files currentName = some (pointerFile line)) :
    Intact root files after := by
  obtain ⟨content, isBackup⟩ := swapped.backup
  refine ⟨swapped.elsewhere, swapped.clean, swapped.pointer.trans already.symm, Or.inl ?_⟩
  rw [isBackup]
  simp

/-- A commit that could be made still can. -/
theorem Intact.commit (intact : Intact root files after) (named : Named root transaction)
    (succeeds : Succeeds (transaction.commitOn platform) files) :
    Succeeds (transaction.commitOn platform) after := by
  obtain ⟨validated, ⟨moved, isMoved⟩, ready⟩ := (succeeds_commitOn_iff named).mp succeeds
  have target : (root ++ (Place.revision transaction.revisionId []).path).dropLast =
      root ++ Place.revisions.path := by
    rw [Place.revision_path]
    exact List.dropLast_concat
  have moves := FileSystem.rename_congr (intact.elsewhere.candidate [])
    (by rw [target]; exact intact.elsewhere.revisions)
    (fun rest => by
      rw [List.append_assoc]
      exact intact.elsewhere.revision rest) isMoved
  exact (succeeds_commitOn_iff named).mpr ⟨validated, moves, ready.intact intact⟩

/-- A rollback that could be made still can. -/
theorem Intact.rollback (intact : Intact root files after) (named : Named root transaction)
    (succeeds : Succeeds (transaction.rollbackOn platform) files) :
    Succeeds (transaction.rollbackOn platform) after := by
  obtain ⟨committed, ⟨previous, isPrevious, isThere⟩, ready⟩ :=
    (succeeds_rollbackOn_iff named.ownRoot).mp succeeds
  have plain := named.plainPrevious previous isPrevious
  obtain ⟨name, isName⟩ := isPlainFileName_iff.mp plain
  have same : after.isDirectory (joinPath (joinPath root revisionsName) previous) =
      files.isDirectory (joinPath (joinPath root revisionsName) previous) := by
    rw [joinPath_revision isName]
    have sameNode := @Elsewhere.revision root files after name intact.elsewhere []
    unfold view at sameNode
    rw [FileSystem.isDirectory, FileSystem.isDirectory, sameNode]
  exact (succeeds_rollbackOn_iff named.ownRoot).mpr
    ⟨committed, ⟨previous, isPrevious, same.trans isThere⟩, ready.intact intact⟩

theorem Intact.harmless (intact : Intact root files after) :
    Harmless platform root files after transaction := by
  constructor
  · exact ⟨intact.pointer, intact.clean⟩
  · exact fun path => intact.elsewhere.candidate path
  · intro other method named isCall succeeds
    cases method with
    | commit => exact intact.commit named succeeds
    | rollback => exact intact.rollback named succeeds
    | stage artifactName bytes => simp at isCall
    | validate validator => simp at isCall

/-- The operations whose failure a pointer write survives. -/
theorem Leaves.kept_iff (clean : entry root files (temporaryName currentName) = none)
    {operation : Option Operation} {result : Except IoError Unit} {world : World Text}
    (leaves : Leaves root line files operation (result, world)) :
    (∀ error, result = .error error → PointerKept root files world.files) ↔
      ∀ failing, operation = some failing →
        failing.Spares (entry root files currentName = some (pointerFile line)) := by
  have spoilt : ∀ {failing : Operation}, operation = some failing → (∃ error, result = .error error) →
      entry root world.files (temporaryName currentName) ≠ none →
      ¬ failing.Spares (entry root files currentName = some (pointerFile line)) →
      ((∀ error, result = .error error → PointerKept root files world.files) ↔
        ∀ failing, operation = some failing →
          failing.Spares (entry root files currentName = some (pointerFile line))) := by
    intro failing isFailing failed present harmful
    obtain ⟨error, isError⟩ := failed
    apply iff_of_false
    · exact fun kept => present (kept error isError).clean
    · exact fun spares => harmful (spares failing isFailing)
  cases operation with
  | none =>
      change result = .ok () at leaves
      simp [leaves]
  | some operation =>
      cases operation with
      | look =>
          change result = .ok () at leaves
          simp [leaves, Operation.Spares]
      | create =>
          obtain ⟨_, same⟩ := leaves
          change world = _ at same
          apply iff_of_true
          · rw [same]
            exact fun _ _ => ⟨rfl, clean⟩
          · simp [Operation.Spares]
      | forget =>
          obtain ⟨⟨error, isError⟩, _, swapped⟩ := leaves
          change Swapped root line files world.files at swapped
          simp only [Option.some.injEq, forall_eq', Operation.Spares]
          constructor
          · intro kept
            rw [← swapped.pointer, (kept error isError).pointer]
          · intro already _ _
            exact ⟨swapped.pointer.trans already.symm, swapped.clean⟩
      | write => exact spoilt rfl leaves.1 leaves.2.2 id
      | sync => exact spoilt rfl leaves.1 leaves.2.2 id
      | clear => exact spoilt rfl leaves.1 leaves.2.2 id
      | keep => exact spoilt rfl leaves.1 leaves.2.2 id
      | replace => exact spoilt rfl leaves.1 leaves.2.2 id

/-- The operations whose failure a commit survives. -/
theorem CommitLeaves.harmless_iff {operation : Option CommitOperation}
    {result : Except TransactionError RevisionTransaction} {world : World Text}
    (leaves : CommitLeaves root transaction.revisionId files operation (result, world)) :
    (∀ error, result = .error error → Harmless platform root files world.files transaction) ↔
      ∀ failing, operation = some failing →
        failing.Spares
          (entry root files currentName = some (pointerFile transaction.revisionId)) := by
  have spoilt : ∀ {failing : Operation}, operation = some (.pointer failing) →
      result.isOk = false ∧ entry root world.files (temporaryName currentName) ≠ none →
      ¬ failing.Spares (entry root files currentName = some (pointerFile transaction.revisionId)) →
      ((∀ error, result = .error error → Harmless platform root files world.files transaction) ↔
        ∀ failing, operation = some failing → failing.Spares
          (entry root files currentName = some (pointerFile transaction.revisionId))) := by
    intro failing isFailing left harmful
    obtain ⟨failed, present⟩ := left
    apply iff_of_false
    · intro harmless
      cases result with
      | ok value => cases failed
      | error error => exact present (harmless error rfl).kept.clean
    · exact fun spares => harmful (spares (.pointer failing) isFailing)
  have survives : result.isOk = true →
      ∀ error, result = .error error → Harmless platform root files world.files transaction := by
    intro isOk error isError
    rw [isError] at isOk
    cases isOk
  cases operation with
  | none => exact iff_of_true (survives leaves) (by simp)
  | some operation =>
      cases operation with
      | move => exact iff_of_true (fun _ _ => leaves.2.harmless) (by simp [CommitOperation.Spares])
      | pointer operation =>
          cases operation with
          | look =>
              apply iff_of_true (survives leaves)
              simp [CommitOperation.Spares, Operation.Spares]
          | create =>
              apply iff_of_true (fun _ _ => leaves.2.harmless)
              simp [CommitOperation.Spares, Operation.Spares]
          | forget =>
              obtain ⟨failed, swapped⟩ := leaves
              simp only [Option.some.injEq, forall_eq', CommitOperation.Spares, Operation.Spares]
              constructor
              · intro harmless
                cases result with
                | ok value => cases failed
                | error error => rw [← swapped.pointer, (harmless error rfl).kept.pointer]
              · exact fun already _ _ => (swapped.intact already).harmless
          | write => exact spoilt rfl leaves id
          | sync => exact spoilt rfl leaves id
          | clear => exact spoilt rfl leaves id
          | keep => exact spoilt rfl leaves id
          | replace => exact spoilt rfl leaves id

end Harmless

/-- One operation of a pointer write or of a commit fails that would otherwise succeed.  It is
harmless exactly when that operation is the renaming of the candidate directory, the creation of
the temporary file or a check whether a file exists, or, where the pointer already was the new
one, the removal of the backup. -/
theorem failed_write_harmless_iff (platform : Platform) (root : List Text)
    (files : FileSystem Text) :
    (∀ line position fault, Succeeds (writePointerOn platform root currentName line) files →
      ((∀ error world, (writePointerOn platform root currentName line).run
          ⟨files, onlyFault position fault⟩ = (.error error, world) →
          PointerKept root files world.files) ↔
        ∀ failing, (pointerOperations platform root files)[position]? = some failing →
          failing.Spares (entry root files currentName = some (pointerFile line)))) ∧
    ∀ transaction position fault, Prepared root files transaction →
      Succeeds (transaction.commitOn platform) files →
      ((∀ error world, (transaction.commitOn platform).run ⟨files, onlyFault position fault⟩ =
          (.error error, world) → Harmless platform root files world.files transaction) ↔
        ∀ failing, (commitOperations platform root files)[position]? = some failing →
          failing.Spares
            (entry root files currentName = some (pointerFile transaction.revisionId))) := by
  constructor
  · intro line position fault succeeds
    have ready := succeeds_writePointerOn_iff.mp succeeds
    have leaves := (ready.traced line).disturbed position fault
    cases ran : (writePointerOn platform root currentName line).run
        ⟨files, onlyFault position fault⟩ with
    | mk result world =>
        rw [ran] at leaves
        rw [← leaves.kept_iff ready.clean]
        constructor
        · exact fun kept error isError => kept error world (by rw [isError])
        · rintro kept error _ ⟨⟩
          exact kept error rfl
  · intro transaction position fault prepared succeeds
    have leaves := prepared.commit_leaves succeeds position fault
    cases ran : (transaction.commitOn platform).run ⟨files, onlyFault position fault⟩ with
    | mk result world =>
        rw [ran] at leaves
        rw [← @CommitLeaves.harmless_iff platform root files transaction _ _ _ leaves]
        constructor
        · exact fun harmless error isError => harmless error world (by rw [isError])
        · rintro harmless error _ ⟨⟩
          exact harmless error rfl

/-! ### A first and a second revision -/

/-- The first transaction up to its validation. -/
def firstPrepared : List Event := ⟨.begin none (some 5) 7, []⟩ :: prepared 0

/-- The second transaction up to its validation. -/
def secondPrepared : List Event := firstRevision ++ [secondBegin] ++ prepared 1

/-- A validated transaction on an empty root. -/
def validatedAt (previous : Option Text) (nanos : Nat) : RevisionTransaction :=
  { root := [], candidate := [candidatesName, revisionName nanos 7], previous,
    revisionId := revisionName nanos 7, state := .validated }

theorem firstPrepared_prepared :
    Prepared [] (systemAfter firstPrepared).files (validatedAt none 5) := by
  have empty : ∀ path : List Text, path ≠ [] → topDirectory.lookup ([] ++ path) = none := by
    intro path notTop
    rw [List.nil_append, topDirectory, Table.lookup_insert_eq, if_neg notTop]
    rfl
  obtain ⟨accepted, ran⟩ := @runs_systemAfter [] firstPrepared (by decide +kernel)
  exact prepared_of_run empty ran (by decide +kernel) (by decide +kernel) (by decide +kernel)

/-- The temporary file cannot be created: the commit can be repeated. -/
theorem failed_create_harmless :
    Harmless .unix [] (systemAfter firstPrepared).files
      (((validatedAt none 5).commitOn .unix).run
        ⟨(systemAfter firstPrepared).files, onlyFault 1 ⟨.other, 0⟩⟩).2.files
      (validatedAt none 5) := by
  apply (((failed_write_harmless_iff .unix [] (systemAfter firstPrepared).files).2
    (validatedAt none 5) 1 ⟨.other, 0⟩ firstPrepared_prepared (by decide +kernel)).mpr _)
    (.io .other) _ (Prod.ext (by decide +kernel) rfl)
  rintro failing ⟨⟩
  trivial

/-- A write of four bytes instead of eight leaves the temporary file, and a second commit does
not succeed.  When the backup cannot be removed on Windows, the pointer has changed. -/
theorem failed_write_harms :
    ((systemAfter firstPrepared).transactions = [validatedAt none 5] ∧
      Succeeds ((validatedAt none 5).commitOn .unix) (systemAfter firstPrepared).files ∧
      (((validatedAt none 5).commitOn .unix).run
        ⟨(systemAfter firstPrepared).files, onlyFault 2 ⟨.other, 4⟩⟩).1 = .error (.io .other) ∧
      entry [] (((validatedAt none 5).commitOn .unix).run
        ⟨(systemAfter firstPrepared).files, onlyFault 2 ⟨.other, 4⟩⟩).2.files
          (temporaryName currentName) = some (.file (utf8 "rev-".toList)) ∧
      ¬ Succeeds ((validatedAt none 5).commitOn .unix)
        (((validatedAt none 5).commitOn .unix).run
          ⟨(systemAfter firstPrepared).files, onlyFault 2 ⟨.other, 4⟩⟩).2.files) ∧
    (Succeeds ((validatedAt (some (revisionName 5 7)) 6).commitOn .windows)
        (systemAfter secondPrepared).files ∧
      (((validatedAt (some (revisionName 5 7)) 6).commitOn .windows).run
        ⟨(systemAfter secondPrepared).files, onlyFault 8 ⟨.other, 0⟩⟩).1 = .error (.io .other) ∧
      entry [] (((validatedAt (some (revisionName 5 7)) 6).commitOn .windows).run
        ⟨(systemAfter secondPrepared).files, onlyFault 8 ⟨.other, 0⟩⟩).2.files currentName ≠
          entry [] (systemAfter secondPrepared).files currentName) := by
  decide +kernel

end SmartFecTunnel.Controller
