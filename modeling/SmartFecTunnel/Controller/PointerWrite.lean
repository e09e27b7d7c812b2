import SmartFecTunnel.Controller.Rollback

/-!
Contract: what one failing file operation does to `write_pointer` (controller.rs).

The temporary file is opened as a new file, so one that is left over blocks every later
write.  On Windows the old pointer is a backup while the new one takes its place.

Owns:
- the operations of a pointer write, in order, on both platforms;
- when it succeeds: exactly on the roots that are ready for it;
- what it leaves when one of its operations fails.

Does not own: two failures in one call.
-/

namespace SmartFecTunnel.Controller

open SmartFecTunnel.Library
open SmartFecTunnel.Library.Io (Traced Succeeds)

/-! ### Trees -/

/-- The names in the root that belong to the pointer. -/
def pointerNames : List Text := [currentName, temporaryName currentName, backupName currentName]

/-- Only the pointer, its temporary file and its backup may differ. -/
def Elsewhere (root : List Text) (files after : FileSystem Text) : Prop :=
  ∀ path, (∀ name ∈ pointerNames, ¬ root ++ [name] <+: path) →
    after.lookup path = files.lookup path

section Trees

variable {root : List Text} {files middle after : FileSystem Text} {line : Text}

theorem entry_insert (name other : Text) (node : Node) :
    entry root (files.insert (root ++ [name]) node) other =
      if other = name then some node else entry root files other := by
  rw [entry, Table.lookup_insert_eq]
  simp [entry]

theorem entry_erase (name other : Text) :
    entry root (files.erase (root ++ [name])) other =
      if other = name then none else entry root files other := by
  rw [entry, Table.lookup_erase_eq]
  simp [entry]

theorem entry_relocate {source target : Text} (different : source ≠ target) (other : Text) :
    entry root (files.relocate (root ++ [source]) (root ++ [target])) other =
      if other = target then entry root files source
      else if other = source then none else entry root files other :=
  FileSystem.lookup_relocate_sibling different other files

theorem Elsewhere.refl (files : FileSystem Text) : Elsewhere root files files :=
  fun _ _ => rfl

theorem Elsewhere.trans (first : Elsewhere root files middle)
    (second : Elsewhere root middle after) : Elsewhere root files after := by
  intro path outside
  rw [second path outside, first path outside]

theorem Elsewhere.isRoot (elsewhere : Elsewhere root files after) :
    after.lookup root = files.lookup root := by
  apply elsewhere
  intro name _ inside
  simpa using inside.length_le

theorem elsewhere_insert {name : Text} (own : name ∈ pointerNames) (node : Node) :
    Elsewhere root files (files.insert (root ++ [name]) node) := by
  intro path outside
  rw [Table.lookup_insert_eq, if_neg]
  rintro rfl
  exact outside name own List.prefix_rfl

theorem elsewhere_erase {name : Text} (own : name ∈ pointerNames) :
    Elsewhere root files (files.erase (root ++ [name])) := by
  intro path outside
  rw [Table.lookup_erase_eq, if_neg]
  rintro rfl
  exact outside name own List.prefix_rfl

theorem elsewhere_relocate {source target : Text} (ownSource : source ∈ pointerNames)
    (ownTarget : target ∈ pointerNames) :
    Elsewhere root files (files.relocate (root ++ [source]) (root ++ [target])) := by
  intro path outside
  exact FileSystem.lookup_relocate_of_not (outside target ownTarget) (outside source ownSource)
    files

/-- A file of the root takes the place of another. -/
theorem rename_entry {source target : Text} {content : Bytes}
    (isRoot : files.lookup root = some .directory)
    (isFile : entry root files source = some (.file content)) (different : source ≠ target)
    (noDirectory : entry root files target ≠ some .directory) :
    files.rename (root ++ [source]) (root ++ [target]) =
      .ok (files.relocate (root ++ [source]) (root ++ [target])) := by
  apply FileSystem.rename_file isFile isRoot
  · rwa [FileSystem.sibling_prefix_iff]
  · exact noDirectory

/-- The temporary file after its creation and its write. -/
theorem append_created (bytes : Bytes) :
    FileSystem.append (root ++ [temporaryName currentName]) bytes
        (files.insert (root ++ [temporaryName currentName]) (.file [])) =
      files.insert (root ++ [temporaryName currentName]) (.file bytes) := by
  have created : (files.insert (root ++ [temporaryName currentName]) (.file [])).lookup
      (root ++ [temporaryName currentName]) = some (.file []) := by
    rw [Table.lookup_insert_eq, if_pos rfl]
  unfold FileSystem.append
  rw [created]
  simp [Table.insert]

end Trees

/-! ### The operations of a pointer write -/

/-- The file operations of a pointer write. -/
inductive Operation where
  | create
  | write
  | sync
  /-- A check whether a file exists, which reads as `false` when it fails. -/
  | look
  | clear
  | keep
  | replace
  | forget
deriving DecidableEq, Repr

/-- The operations of the swap on Windows. -/
def swapOperations (root : List Text) (files : FileSystem Text) : List Operation :=
  if (entry root files (backupName currentName)).isSome then
    [.look, .clear, .keep, .replace, .forget]
  else [.look, .keep, .replace, .forget]

/-- The operations of `write_pointer`, when none fails. -/
def pointerOperations (platform : Platform) (root : List Text) (files : FileSystem Text) :
    List Operation :=
  .create :: .write :: .sync ::
    match platform with
    | .unix => [.replace]
    | .windows =>
      .look :: if (entry root files currentName).isSome then swapOperations root files
        else [.replace]

/-- A root in which the pointer can be written. -/
structure PointerReady (platform : Platform) (root : List Text) (files : FileSystem Text) :
    Prop where
  isRoot : files.lookup root = some .directory
  clean : entry root files (temporaryName currentName) = none
  pointer : entry root files currentName ≠ some .directory
  backup : platform = .windows → entry root files currentName ≠ none →
    entry root files (backupName currentName) ≠ some .directory

/-- Only the removal of the backup has failed. -/
structure Swapped (root : List Text) (line : Text) (files after : FileSystem Text) : Prop where
  elsewhere : Elsewhere root files after
  clean : entry root after (temporaryName currentName) = none
  pointer : entry root after currentName = some (pointerFile line)
  backup : ∃ content, entry root after (backupName currentName) = some (.file content)

/-- What the failure of an operation leaves. -/
def Leaves (root : List Text) (line : Text) (files : FileSystem Text) :
    Option Operation → Except IoError Unit × World Text → Prop
  | none, result => result.1 = .ok ()
  | some .look, result => result.1 = .ok ()
  | some .create, result => (∃ error, result.1 = .error error) ∧ result.2 = ⟨files, []⟩
  | some .forget, result =>
    (∃ error, result.1 = .error error) ∧ result.2.faults = [] ∧
      Swapped root line files result.2.files
  | some _, result =>
    (∃ error, result.1 = .error error) ∧ result.2.faults = [] ∧
      entry root result.2.files (temporaryName currentName) ≠ none

/-- Only a check can fail without making the pointer write fail. -/
theorem Leaves.of_ok {root : List Text} {line : Text} {files : FileSystem Text}
    {operation : Option Operation} {world : World Text}
    (leaves : Leaves root line files operation (.ok (), world)) :
    operation = none ∨ operation = some .look := by
  cases operation with
  | none => exact Or.inl rfl
  | some operation =>
      cases operation with
      | look => exact Or.inr rfl
      | create => exact absurd leaves.1 (by simp)
      | write => exact absurd leaves.1 (by simp)
      | sync => exact absurd leaves.1 (by simp)
      | clear => exact absurd leaves.1 (by simp)
      | keep => exact absurd leaves.1 (by simp)
      | replace => exact absurd leaves.1 (by simp)
      | forget => exact absurd leaves.1 (by simp)

/-- A tree in which the temporary file is complete. -/
structure Complete (root : List Text) (line : Text) (files after : FileSystem Text) : Prop where
  isRoot : after.lookup root = some .directory
  elsewhere : Elsewhere root files after
  complete : entry root after (temporaryName currentName) = some (pointerFile line)
  pointer : entry root after currentName = entry root files currentName

section Complete

variable {platform : Platform} {root : List Text} {files after : FileSystem Text} {line : Text}

theorem mem_pointerNames : currentName ∈ pointerNames ∧ temporaryName currentName ∈ pointerNames ∧
    backupName currentName ∈ pointerNames := by
  decide

theorem Complete.spoilt (complete : Complete root line files after) :
    entry root after (temporaryName currentName) ≠ none := by
  rw [complete.complete]
  exact Option.some_ne_none _

theorem PointerReady.complete (ready : PointerReady platform root files) (line : Text) :
    Complete root line files
      (files.insert (root ++ [temporaryName currentName]) (pointerFile line)) := by
  have elsewhere : Elsewhere root files
      (files.insert (root ++ [temporaryName currentName]) (pointerFile line)) :=
    elsewhere_insert mem_pointerNames.2.1 _
  constructor
  · exact elsewhere.isRoot.trans ready.isRoot
  · exact elsewhere
  · simp [entry_insert]
  · simp [entry_insert]

/-- A backup that is there is removed. -/
theorem Complete.cleared (complete : Complete root line files after) :
    Complete root line files (after.erase (root ++ [backupName currentName])) := by
  have elsewhere : Elsewhere root after (after.erase (root ++ [backupName currentName])) :=
    elsewhere_erase mem_pointerNames.2.2
  constructor
  · exact elsewhere.isRoot.trans complete.isRoot
  · exact complete.elsewhere.trans elsewhere
  · simpa [entry_erase] using complete.complete
  · simpa [entry_erase] using complete.pointer

/-- The temporary file takes the place of the pointer. -/
theorem Complete.rename (complete : Complete root line files after)
    (noDirectory : entry root after currentName ≠ some .directory) :
    after.rename (root ++ [temporaryName currentName]) (root ++ [currentName]) =
      .ok (after.relocate (root ++ [temporaryName currentName]) (root ++ [currentName])) :=
  rename_entry complete.isRoot complete.complete temporaryName_ne_currentName noDirectory

/-- A tree in which the old pointer is the backup. -/
structure Kept (root : List Text) (line : Text) (files after : FileSystem Text) : Prop where
  isRoot : after.lookup root = some .directory
  elsewhere : Elsewhere root files after
  complete : entry root after (temporaryName currentName) = some (pointerFile line)
  pointer : entry root after currentName = none
  backup : ∃ content, entry root after (backupName currentName) = some (.file content)

theorem Complete.kept (complete : Complete root line files after) {content : Bytes}
    (isFile : entry root after currentName = some (.file content)) :
    Kept root line files
      (after.relocate (root ++ [currentName]) (root ++ [backupName currentName])) := by
  have elsewhere : Elsewhere root after
      (after.relocate (root ++ [currentName]) (root ++ [backupName currentName])) :=
    elsewhere_relocate mem_pointerNames.1 mem_pointerNames.2.2
  have entries := @entry_relocate root after _ _ currentName_ne_backupName
  constructor
  · exact elsewhere.isRoot.trans complete.isRoot
  · exact complete.elsewhere.trans elsewhere
  · simpa [entries] using complete.complete
  · simp [entries]
  · simp [entries, isFile]

theorem Kept.replace (kept : Kept root line files after) :
    after.rename (root ++ [temporaryName currentName]) (root ++ [currentName]) =
      .ok (after.relocate (root ++ [temporaryName currentName]) (root ++ [currentName])) := by
  apply rename_entry kept.isRoot kept.complete temporaryName_ne_currentName
  simp [kept.pointer]

theorem Kept.swapped (kept : Kept root line files after) :
    Swapped root line files
      (after.relocate (root ++ [temporaryName currentName]) (root ++ [currentName])) := by
  have entries := @entry_relocate root after _ _ temporaryName_ne_currentName
  constructor
  · exact kept.elsewhere.trans (elsewhere_relocate mem_pointerNames.2.1 mem_pointerNames.1)
  · simp [entries]
  · simpa [entries] using kept.complete
  · simpa [entries] using kept.backup

end Complete

/-! ### Looks -/

section Looks

variable {files : FileSystem Text} {path : List Text} {rest : Bool → Io Text IoError Unit}

theorem run_pathExists {faults : List (Option Fault)} (clear : faults.head?.join = none) :
    (pathExists path : Io Text IoError Bool).run ⟨files, faults⟩ =
      (.ok (files.lookup path).isSome, ⟨files, faults.tail⟩) := by
  simp [pathExists, clear, ExceptT.run_mk]

/-- A look, and what follows.  When it fails, the program goes on with `false`. -/
theorem traced_look {first : Operation} {operations : List Operation}
    {outcome : Option Operation → Except IoError Unit × World Text → Prop}
    (fails : outcome (some first) ((rest false).run ⟨files, []⟩))
    (goes : Traced (rest (files.lookup path).isSome) files operations outcome) :
    Traced (pathExists path >>= rest) files (first :: operations) outcome := by
  constructor
  · rw [Io.run_bind, run_pathExists rfl]
    exact goes.undisturbed
  · intro position fault
    rw [Io.run_bind]
    cases position with
    | zero => exact fails
    | succ position =>
        rw [run_pathExists rfl]
        exact goes.disturbed position fault

theorem succeeds_of_look (succeeds : Succeeds (pathExists path >>= rest) files) :
    Succeeds (rest (files.lookup path).isSome) files := by
  unfold Succeeds at succeeds ⊢
  rw [Io.run_bind, run_pathExists rfl] at succeeds
  exact succeeds

end Looks

/-! ### What a failing operation leaves -/

section Runs

variable {platform : Platform} {root : List Text} {files after : FileSystem Text} {line : Text}

/-- The rename of the temporary file is the last operation. -/
theorem Complete.traced_replace (complete : Complete root line files after)
    (noDirectory : entry root after currentName ≠ some .directory) :
    Traced (Io.rename (root ++ [temporaryName currentName]) (root ++ [currentName])) after
      [.replace] (Leaves root line files) := by
  apply Traced.last (complete.rename noDirectory)
  · intro fault
    exact ⟨⟨_, rfl⟩, rfl, complete.spoilt⟩
  · intro faults
    rfl

/-- When the rename of the temporary file fails, the backup is renamed back. -/
theorem Kept.restored (kept : Kept root line files after) (error : IoError) :
    Leaves root line files (some .replace)
      (((do
        Io.ignore (Io.rename (root ++ [backupName currentName]) (root ++ [currentName]))
        throw error : Io Text IoError Unit) >>= fun _ =>
          Io.removeFile (root ++ [backupName currentName])).run ⟨after, []⟩) := by
  obtain ⟨content, isBackup⟩ := kept.backup
  have back := rename_entry kept.isRoot isBackup backupName_ne_currentName (by simp [kept.pointer])
  have restored : (Io.rename (root ++ [backupName currentName]) (root ++ [currentName])).run
      ⟨after, []⟩ = (.ok (), ⟨after.relocate (root ++ [backupName currentName])
        (root ++ [currentName]), []⟩) := Io.run_operation back rfl
  have temporary : entry root (after.relocate (root ++ [backupName currentName])
      (root ++ [currentName])) (temporaryName currentName) = some (pointerFile line) := by
    simpa [entry_relocate] using kept.complete
  rw [bind_assoc, Io.run_bind, Io.run_ignore, restored]
  refine ⟨⟨error, rfl⟩, rfl, ?_⟩
  change entry root (after.relocate _ _) _ ≠ none
  rw [temporary]
  exact Option.some_ne_none _

/-- The exchange of the pointer on Windows. -/
theorem Complete.traced_exchange (complete : Complete root line files after) {content : Bytes}
    (isFile : entry root after currentName = some (.file content))
    (noDirectory : entry root after (backupName currentName) ≠ some .directory) :
    Traced (exchangePointer (root ++ [temporaryName currentName])
        (root ++ [backupName currentName]) (root ++ [currentName])) after
      [.keep, .replace, .forget] (Leaves root line files) := by
  have kept := complete.kept isFile
  obtain ⟨_, isBackup⟩ := kept.swapped.backup
  unfold exchangePointer
  apply Traced.operation_bind
    (rename_entry complete.isRoot isFile currentName_ne_backupName noDirectory)
  · intro fault
    exact ⟨⟨_, rfl⟩, rfl, complete.spoilt⟩
  · apply Traced.tryCatch_bind kept.replace
    · intro fault
      exact kept.restored fault.error
    · apply Traced.last (FileSystem.removeFile_of_file isBackup)
      · intro fault
        exact ⟨⟨_, rfl⟩, rfl, kept.swapped⟩
      · intro faults
        rfl

/-- The swap on Windows. -/
theorem Complete.traced_swap (complete : Complete root line files after) {content : Bytes}
    (isFile : entry root after currentName = some (.file content))
    (noDirectory : entry root after (backupName currentName) ≠ some .directory) :
    Traced (swapPointer (root ++ [temporaryName currentName]) (root ++ [backupName currentName])
        (root ++ [currentName])) after
      (swapOperations root after) (Leaves root line files) := by
  have exchanged := complete.traced_exchange isFile noDirectory
  unfold swapPointer clearBackup swapOperations
  rw [bind_assoc]
  cases held : entry root after (backupName currentName) with
  | none =>
      rw [held] at noDirectory
      apply traced_look
      · exact exchanged.undisturbed
      · rw [← entry, held]
        exact exchanged
  | some node =>
      cases node with
      | directory => exact absurd held noDirectory
      | file previous =>
          have present := complete.cleared.traced_exchange
            (by simpa [entry_erase] using isFile) (by simp [entry_erase])
          apply traced_look
          · exact exchanged.undisturbed
          · rw [← entry, held, Option.isSome_some, if_pos rfl]
            apply Traced.operation_bind (FileSystem.removeFile_of_file held)
            · intro fault
              exact ⟨⟨_, rfl⟩, rfl, complete.spoilt⟩
            · exact present

/-- The operations up to the complete temporary file. -/
theorem PointerReady.traced_draft (ready : PointerReady platform root files)
    {rest : Io Text IoError Unit} {operations : List Operation}
    (goes : Traced rest (files.insert (root ++ [temporaryName currentName]) (pointerFile line))
      operations (Leaves root line files)) :
    Traced (do
        Io.createNew (root ++ [temporaryName currentName])
        Io.writeAll (root ++ [temporaryName currentName]) (utf8 (line ++ ['\n']))
        Io.syncAll
        rest) files
      (.create :: .write :: .sync :: operations) (Leaves root line files) := by
  have complete := ready.complete line
  apply Traced.operation_bind (FileSystem.createNew_of_absent ready.isRoot ready.clean)
  · intro fault
    exact ⟨⟨_, rfl⟩, rfl⟩
  · apply Traced.writeAll_bind
    · intro fault
      refine ⟨⟨_, rfl⟩, rfl, ?_⟩
      rw [append_created, entry_insert, if_pos rfl]
      exact Option.some_ne_none _
    · rw [append_created]
      apply Traced.operation_bind rfl
      · intro fault
        exact ⟨⟨_, rfl⟩, rfl, complete.spoilt⟩
      · exact goes

/-- Whatever operation of a pointer write fails, it leaves what `Leaves` says. -/
theorem PointerReady.traced (ready : PointerReady platform root files) (line : Text) :
    Traced (writePointerOn platform root currentName line) files
      (pointerOperations platform root files) (Leaves root line files) := by
  have complete := ready.complete line
  have noDirectory : entry root
      (files.insert (root ++ [temporaryName currentName]) (pointerFile line)) currentName ≠
        some .directory := by
    rw [complete.pointer]
    exact ready.pointer
  have sameBackup : entry root
      (files.insert (root ++ [temporaryName currentName]) (pointerFile line))
      (backupName currentName) = entry root files (backupName currentName) := by
    simp [entry_insert]
  unfold writePointerOn writePointer
  rw [joinPath_temporaryName, joinPath_currentName, joinPath_backupName]
  cases platform with
  | unix => exact ready.traced_draft (complete.traced_replace noDirectory)
  | windows =>
      apply ready.traced_draft
      apply traced_look
      · exact (complete.traced_replace noDirectory).undisturbed
      · change Traced (if (entry root _ currentName).isSome = true then _ else _) _ _ _
        rw [complete.pointer]
        cases isPointer : entry root files currentName with
        | none => exact complete.traced_replace noDirectory
        | some node =>
            cases node with
            | directory => exact absurd isPointer ready.pointer
            | file content =>
                have isFile := complete.pointer.trans isPointer
                have swapped := complete.traced_swap isFile (by
                  rw [sameBackup]
                  exact ready.backup rfl (by simp [isPointer]))
                rw [swapOperations, sameBackup] at swapped
                exact swapped

end Runs

/-! ### When a pointer write succeeds -/

section Success

variable {platform : Platform} {root : List Text} {files after : FileSystem Text} {line : Text}

theorem noDirectory_of_replace {content : Bytes}
    (isFile : entry root files (temporaryName currentName) = some (.file content))
    (succeeds : Succeeds (Io.rename (root ++ [temporaryName currentName]) (root ++ [currentName]))
      files) :
    entry root files currentName ≠ some .directory := by
  obtain ⟨next, renamed⟩ := succeeds.of_operation
  apply FileSystem.noDirectory_of_rename isFile _ renamed
  simp

/-- An exchange that succeeds has removed a file, which was the pointer. -/
theorem isFile_of_exchange
    (succeeds : Succeeds (exchangePointer (root ++ [temporaryName currentName])
      (root ++ [backupName currentName]) (root ++ [currentName])) files) :
    (∃ content, entry root files currentName = some (.file content)) ∧
      entry root files (backupName currentName) ≠ some .directory := by
  unfold exchangePointer at succeeds
  obtain ⟨kept, renamed, rest⟩ := succeeds.of_operation_bind
  have keeps : root ++ [currentName] ≠ root ++ [backupName currentName] := by simp
  have replaces : root ++ [temporaryName currentName] ≠ root ++ [currentName] := by simp
  obtain ⟨swapped, replaced, removal⟩ := rest.of_tryCatch_bind fun error failed => by
    rw [Succeeds, bind_assoc, Io.run_bind, Io.run_ignore] at failed
    exact Bool.false_ne_true failed
  obtain ⟨_, removed⟩ := removal.of_operation
  obtain ⟨⟨content, isBackup⟩, _⟩ := FileSystem.of_removeFile removed
  have isPointer : entry root files currentName = some (.file content) := by
    change entry root swapped (backupName currentName) = _ at isBackup
    rw [(FileSystem.rename_relocates replaced replaces).2,
      (FileSystem.rename_relocates renamed keeps).2] at isBackup
    simpa [entry_relocate] using isBackup
  exact ⟨⟨content, isPointer⟩, FileSystem.noDirectory_of_rename isPointer keeps renamed⟩

/-- The end of a swap is an exchange, with the backup removed before if there is one. -/
theorem isFile_of_swap
    (succeeds : Succeeds (swapPointer (root ++ [temporaryName currentName])
      (root ++ [backupName currentName]) (root ++ [currentName])) files) :
    (∃ content, entry root files currentName = some (.file content)) ∧
      entry root files (backupName currentName) ≠ some .directory := by
  unfold swapPointer clearBackup at succeeds
  rw [bind_assoc] at succeeds
  have looked := succeeds_of_look succeeds
  cases held : entry root files (backupName currentName) with
  | none =>
      rw [← entry, held] at looked
      have exchanged : Succeeds (exchangePointer (root ++ [temporaryName currentName])
        (root ++ [backupName currentName]) (root ++ [currentName])) files := looked
      exact ⟨(isFile_of_exchange exchanged).1, by simp⟩
  | some node =>
      rw [← entry, held, Option.isSome_some, if_pos rfl] at looked
      obtain ⟨cleared, removed, rest⟩ := looked.of_operation_bind
      obtain ⟨⟨content, isBackup⟩, rfl⟩ := FileSystem.of_removeFile removed
      have isPointer := (isFile_of_exchange rest).1
      rw [entry, isBackup] at held
      cases held
      exact ⟨by simpa [entry_erase] using isPointer, by simp⟩

theorem succeeds_of_draft {rest : Io Text IoError Unit}
    (succeeds : Succeeds (do
        Io.createNew (root ++ [temporaryName currentName])
        Io.writeAll (root ++ [temporaryName currentName]) (utf8 (line ++ ['\n']))
        Io.syncAll
        rest) files) :
    (files.lookup root = some .directory ∧ entry root files (temporaryName currentName) = none) ∧
      Succeeds rest
        (files.insert (root ++ [temporaryName currentName]) (pointerFile line)) := by
  obtain ⟨_, created, written⟩ := succeeds.of_operation_bind
  obtain ⟨isRoot, clean, rfl⟩ := FileSystem.of_createNew created
  obtain ⟨drafted, isDrafted, synced⟩ := written.of_operation_bind
  obtain ⟨_, same, ends⟩ := synced.of_operation_bind
  rw [append_created] at isDrafted
  cases isDrafted
  cases same
  exact ⟨⟨isRoot, clean⟩, ends⟩

/-- `write_pointer` succeeds exactly on a root that is ready for it. -/
theorem succeeds_writePointerOn_iff :
    Succeeds (writePointerOn platform root currentName line) files ↔
      PointerReady platform root files := by
  constructor
  · intro succeeds
    unfold writePointerOn writePointer at succeeds
    rw [joinPath_temporaryName, joinPath_currentName, joinPath_backupName] at succeeds
    have isDraft : entry root (files.insert (root ++ [temporaryName currentName])
        (pointerFile line)) (temporaryName currentName) = some (pointerFile line) := by
      simp [entry_insert]
    have samePointer : entry root (files.insert (root ++ [temporaryName currentName])
        (pointerFile line)) currentName = entry root files currentName := by
      simp [entry_insert]
    have sameBackup : entry root (files.insert (root ++ [temporaryName currentName])
        (pointerFile line)) (backupName currentName) =
          entry root files (backupName currentName) := by
      simp [entry_insert]
    cases platform with
    | unix =>
        obtain ⟨⟨isRoot, clean⟩, ends⟩ := succeeds_of_draft succeeds
        have noDirectory := noDirectory_of_replace isDraft ends
        rw [samePointer] at noDirectory
        exact ⟨isRoot, clean, noDirectory, fun isWindows => by cases isWindows⟩
    | windows =>
        obtain ⟨⟨isRoot, clean⟩, ends⟩ := succeeds_of_draft succeeds
        have looked := succeeds_of_look ends
        change Succeeds (if (entry root _ currentName).isSome = true then _ else _) _ at looked
        rw [samePointer] at looked
        cases isPointer : entry root files currentName with
        | none => exact ⟨isRoot, clean, by simp [isPointer], by simp [isPointer]⟩
        | some node =>
            rw [isPointer, Option.isSome_some, if_pos rfl] at looked
            obtain ⟨⟨content, isFile⟩, noDirectory⟩ := isFile_of_swap looked
            rw [samePointer] at isFile
            rw [sameBackup] at noDirectory
            exact ⟨isRoot, clean, by simp [isFile], fun _ _ => noDirectory⟩
  · intro ready
    have done := (ready.traced line).undisturbed
    rw [Succeeds, done]
    rfl

end Success

end SmartFecTunnel.Controller
