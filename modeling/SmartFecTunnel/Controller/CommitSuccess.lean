import SmartFecTunnel.Controller.PointerWrite

/-!
Contract: when a commit and a rollback succeed (controller.rs), on both platforms.

Owns:
- a tree in which the pointer is as before, and can be written again if it could be;
- `Prepared`, the transactions whose revision is not there yet;
- a commit as a move and a pointer write, and when commits and rollbacks succeed.

Does not own: what a failed call leaves.
-/

namespace SmartFecTunnel.Controller

open SmartFecTunnel.Library
open SmartFecTunnel.Library.Io (Succeeds)

/-! ### Trees that differ at the pointer only -/

section Trees

variable {platform : Platform} {root : List Text} {files after : FileSystem Text} {id : Text}

theorem outside_of_notMem {name : Text} (notMem : name ∉ pointerNames) (rest : List Text) :
    ∀ own ∈ pointerNames, ¬ root ++ [own] <+: root ++ name :: rest := by
  intro own isOwn inside
  rw [List.prefix_append_right_inj, List.cons_prefix_cons] at inside
  exact notMem (inside.1 ▸ isOwn)

theorem notMem_pointerNames : candidatesName ∉ pointerNames ∧ revisionsName ∉ pointerNames := by
  decide

theorem Elsewhere.candidate (elsewhere : Elsewhere root files after) (path : List Text) :
    view root after (.candidate id path) = view root files (.candidate id path) :=
  elsewhere _ (outside_of_notMem notMem_pointerNames.1 _)

theorem Elsewhere.revision (elsewhere : Elsewhere root files after) (path : List Text) :
    view root after (.revision id path) = view root files (.revision id path) :=
  elsewhere _ (outside_of_notMem notMem_pointerNames.2 _)

theorem Elsewhere.candidates (elsewhere : Elsewhere root files after) :
    view root after .candidates = view root files .candidates :=
  elsewhere _ (outside_of_notMem notMem_pointerNames.1 _)

theorem Elsewhere.revisions (elsewhere : Elsewhere root files after) :
    view root after .revisions = view root files .revisions :=
  elsewhere _ (outside_of_notMem notMem_pointerNames.2 _)

/-- The pointer is as before and can be written again. -/
structure Intact (root : List Text) (files after : FileSystem Text) : Prop where
  elsewhere : Elsewhere root files after
  clean : entry root after (temporaryName currentName) = none
  pointer : entry root after currentName = entry root files currentName
  backup : entry root after (backupName currentName) ≠ some .directory ∨
    entry root after (backupName currentName) = entry root files (backupName currentName)

theorem PointerReady.intact (ready : PointerReady platform root files)
    (intact : Intact root files after) : PointerReady platform root after := by
  constructor
  · exact intact.elsewhere.isRoot.trans ready.isRoot
  · exact intact.clean
  · rw [intact.pointer]
    exact ready.pointer
  · intro isWindows present
    rw [intact.pointer] at present
    obtain noDirectory | same := intact.backup
    · exact noDirectory
    · rw [same]
      exact ready.backup isWindows present

/-- Nothing above the moved directory changes. -/
theorem lookup_relocate_deep {source target : Place} {path : List Text}
    (deepSource : source.path.length = 2) (deepTarget : target.path.length = 2)
    (shallow : path.length < root.length + 2) :
    (files.relocate (root ++ source.path) (root ++ target.path)).lookup path =
      files.lookup path := by
  apply FileSystem.lookup_relocate_of_not
  · intro inside
    have longer := inside.length_le
    rw [List.length_append, deepTarget] at longer
    omega
  · intro inside
    have longer := inside.length_le
    rw [List.length_append, deepSource] at longer
    omega

/-- What is stored in the root directly. -/
theorem entry_relocate_deep {source target : Place} {name : Text}
    (deepSource : source.path.length = 2) (deepTarget : target.path.length = 2) :
    entry root (files.relocate (root ++ source.path) (root ++ target.path)) name =
      entry root files name :=
  lookup_relocate_deep deepSource deepTarget (by simp)

end Trees

/-! ### Commits -/

/-- A transaction whose revision is not there yet. -/
structure Prepared (root : List Text) (files : FileSystem Text)
    (transaction : RevisionTransaction) : Prop where
  named : Named root transaction
  candidates : view root files .candidates = some .directory
  vacant : ∀ path, view root files (.revision transaction.revisionId path) = none

section Commits

variable {platform : Platform} {root : List Text} {files moved after : FileSystem Text}
  {transaction : RevisionTransaction}

/-- Where a commit moves the candidate directory. -/
theorem Named.joinPath_own (named : Named root transaction) :
    joinPath (joinPath root revisionsName) transaction.revisionId =
      root ++ (Place.revision transaction.revisionId []).path :=
  joinPath_revision named.components_own

/-- The candidate directory is under `revisions`. -/
def CandidateMoved (root : List Text) (transaction : RevisionTransaction)
    (files moved : FileSystem Text) : Prop :=
  files.rename (root ++ (Place.candidate transaction.revisionId []).path)
    (root ++ (Place.revision transaction.revisionId []).path) = .ok moved

theorem CandidateMoved.relocated (isMoved : CandidateMoved root transaction files moved) :
    (∃ node, view root files (.candidate transaction.revisionId []) = some node) ∧
      moved = files.relocate (root ++ (Place.candidate transaction.revisionId []).path)
        (root ++ (Place.revision transaction.revisionId []).path) := by
  apply FileSystem.rename_relocates isMoved
  intro same
  cases Place.path_injective (List.append_cancel_left same)

theorem CandidateMoved.entry (isMoved : CandidateMoved root transaction files moved)
    (name : Text) : entry root moved name = entry root files name := by
  rw [isMoved.relocated.2]
  exact entry_relocate_deep rfl rfl

theorem CandidateMoved.isRoot (isMoved : CandidateMoved root transaction files moved) :
    moved.lookup root = files.lookup root := by
  rw [isMoved.relocated.2]
  exact lookup_relocate_deep rfl rfl (by simp)

theorem CandidateMoved.ready_iff (isMoved : CandidateMoved root transaction files moved) :
    PointerReady platform root moved ↔ PointerReady platform root files := by
  constructor
  · rintro ⟨isRoot, clean, pointer, backup⟩
    simp only [isMoved.entry, isMoved.isRoot] at isRoot clean pointer backup
    exact ⟨isRoot, clean, pointer, backup⟩
  · rintro ⟨isRoot, clean, pointer, backup⟩
    simp only [← isMoved.entry, ← isMoved.isRoot] at isRoot clean pointer backup
    exact ⟨isRoot, clean, pointer, backup⟩

/-- What a commit does after the candidate directory has moved. -/
theorem run_commitOn (named : Named root transaction) (validated : transaction.state = .validated)
    (isMoved : CandidateMoved root transaction files moved) {faults : List (Option Fault)}
    (clear : faults.head?.join = none) :
    (transaction.commitOn platform).run ⟨files, faults⟩ =
      match (writePointerOn platform root currentName transaction.revisionId).run
          ⟨moved, faults.tail⟩ with
      | (.ok _, world) => (.ok { transaction with state := .committed }, world)
      | (.error error, world) =>
        (.error (.io error),
          ((Io.rename (root ++ (Place.revision transaction.revisionId []).path)
            (root ++ (Place.candidate transaction.revisionId []).path)).run world).2) := by
  unfold RevisionTransaction.commitOn
  simp only [expect_bind, if_pos validated, named.ownRoot, named.joinPath_own, named.ownCandidate]
  rw [Io.run_bind, io, Io.run_adapt, Io.rename, Io.run_operation isMoved clear]
  simp only [Io.run_bind, Io.run_tryCatch, io, Io.run_adapt]
  cases (writePointerOn platform root currentName transaction.revisionId).run
      ⟨moved, faults.tail⟩ with
  | mk result world =>
      cases result with
      | ok value => rfl
      | error error => rfl

/-- A commit succeeds exactly for a validated transaction whose candidate directory can be
moved, on a root that is ready for a pointer write. -/
theorem succeeds_commitOn_iff (named : Named root transaction) :
    Succeeds (transaction.commitOn platform) files ↔
      transaction.state = .validated ∧ (∃ moved, CandidateMoved root transaction files moved) ∧
        PointerReady platform root files := by
  have settled : ∀ {moved}, transaction.state = .validated →
      CandidateMoved root transaction files moved →
      (Succeeds (transaction.commitOn platform) files ↔ PointerReady platform root files) := by
    intro moved validated isMoved
    rw [← isMoved.ready_iff, ← @succeeds_writePointerOn_iff platform root moved
      transaction.revisionId]
    have ran := @run_commitOn platform root files moved transaction named validated isMoved [] rfl
    rw [Succeeds, Succeeds, ran, List.tail_nil]
    cases (writePointerOn platform root currentName transaction.revisionId).run
        ⟨moved, []⟩ with
    | mk result world =>
        cases result with
        | ok value => rfl
        | error error => rfl
  constructor
  · intro succeeds
    have validated : transaction.state = .validated := by
      by_contra other
      unfold RevisionTransaction.commitOn at succeeds
      rw [expect_bind, if_neg other] at succeeds
      exact Bool.false_ne_true succeeds
    have moves : ∃ moved, CandidateMoved root transaction files moved := by
      unfold RevisionTransaction.commitOn Succeeds at succeeds
      simp only [expect_bind, if_pos validated, named.ownRoot, named.joinPath_own,
        named.ownCandidate] at succeeds
      rw [Io.run_bind, io, Io.run_adapt, Io.rename] at succeeds
      cases renamed : files.rename (root ++ (Place.candidate transaction.revisionId []).path)
          (root ++ (Place.revision transaction.revisionId []).path) with
      | ok moved => exact ⟨moved, renamed⟩
      | error error =>
          rw [Io.run_operation_error renamed rfl] at succeeds
          exact absurd succeeds Bool.false_ne_true
    obtain ⟨moved, isMoved⟩ := moves
    exact ⟨validated, ⟨moved, isMoved⟩, (settled validated isMoved).mp succeeds⟩
  · rintro ⟨validated, ⟨moved, isMoved⟩, ready⟩
    exact (settled validated isMoved).mpr ready

/-- A rollback succeeds exactly for a committed transaction with an earlier revision that is
still there, on a root that is ready for a pointer write. -/
theorem succeeds_rollbackOn_iff (ownRoot : transaction.root = root) :
    Succeeds (transaction.rollbackOn platform) files ↔
      transaction.state = .committed ∧
        (∃ previous, transaction.previous = some previous ∧
          files.isDirectory (joinPath (joinPath root revisionsName) previous) = true) ∧
        PointerReady platform root files := by
  unfold RevisionTransaction.rollbackOn
  rw [expect_bind, ownRoot]
  by_cases committed : transaction.state = .committed
  · rw [if_pos committed]
    cases transaction.previous with
    | none => simp [Io.not_succeeds_throw]
    | some previous =>
        rw [← @succeeds_writePointerOn_iff platform root files previous, Io.succeeds_isDir_iff]
        cases isThere : files.isDirectory (joinPath (joinPath root revisionsName) previous) with
        | false => simp [isThere, Io.not_succeeds_throw]
        | true =>
            simp only [Bool.not_true, Bool.false_eq_true, if_false, Option.some.injEq,
              exists_eq_left', isThere, true_and, committed]
            exact Io.succeeds_adapt_iff
  · rw [if_neg committed]
    simp [committed, Io.not_succeeds_throw]

end Commits

end SmartFecTunnel.Controller
