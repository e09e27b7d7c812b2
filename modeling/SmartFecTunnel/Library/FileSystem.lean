import SmartFecTunnel.Library.BigEndian
import SmartFecTunnel.Library.Table

/-!
Contract: a tree of directories and files, the operations of a Unix file system
on it, and programs of which any operation may fail.

A path is the list of the names from the top.  The operations decide as the
system calls do; what a device or a quota can do to them is a fault, which the
caller of a program chooses for each operation.  A failed operation changes
nothing, but a failed write leaves a part of its bytes.

Owns:
- `createDir`, `createNew`, `append`, `rename` and `removeFile` on trees;
- `Io`, programs over them, and `Ensures`, what a program ensures under every
  choice of faults, with a rule for each way to build a program.

Does not own: links, permissions, and names relative to another directory.
-/

namespace SmartFecTunnel.Library

universe u v

/-- The kinds of errors that callers tell apart. -/
inductive IoError where
  | notFound
  | alreadyExists
  | notADirectory
  | isADirectory
  | directoryNotEmpty
  | invalidInput
  | invalidData
  | other
deriving DecidableEq, Repr

inductive Node where
  | directory
  | file (content : Bytes)
deriving DecidableEq, Repr

abbrev FileSystem (ν : Type u) := Table (List ν) Node

namespace FileSystem

variable {ν : Type u} [DecidableEq ν]

def isDirectory (files : FileSystem ν) (path : List ν) : Bool :=
  files.lookup path = some .directory

/-- Whether a name can be added to this directory. -/
def openDirectory (files : FileSystem ν) (path : List ν) : Except IoError Unit :=
  match files.lookup path with
  | some .directory => .ok ()
  | some (.file _) => .error .notADirectory
  | none => .error .notFound

/-- Add a node where there is none, in a directory that exists. -/
def addNode (node : Node) (path : List ν) (files : FileSystem ν) :
    Except IoError (FileSystem ν) :=
  match files.lookup path with
  | some _ => .error .alreadyExists
  | none => (files.openDirectory path.dropLast).map fun _ => files.insert path node

/-- `mkdir`. -/
def createDir (path : List ν) (files : FileSystem ν) : Except IoError (FileSystem ν) :=
  files.addNode .directory path

/-- `open` with `O_CREAT` and `O_EXCL`. -/
def createNew (path : List ν) (files : FileSystem ν) : Except IoError (FileSystem ν) :=
  files.addNode (.file []) path

/-- `write` at the end of an open file. -/
def append (path : List ν) (bytes : Bytes) (files : FileSystem ν) : FileSystem ν :=
  match files.lookup path with
  | some (.file content) => files.insert path (.file (content ++ bytes))
  | _ => files

def removeFile (path : List ν) (files : FileSystem ν) : Except IoError (FileSystem ν) :=
  match files.lookup path with
  | some (.file _) => .ok (files.erase path)
  | some .directory => .error .isADirectory
  | none => .error .notFound

/-- Nothing is below the path. -/
def isEmpty (files : FileSystem ν) (path : List ν) : Bool :=
  files.keys.all fun key => ¬ (path <+: key ∧ key ≠ path)

/-- Where `relocate` puts an entry, if it keeps it. -/
def relocateEntry (source target : List ν) (entry : Σ _ : List ν, Node) :
    Option (Σ _ : List ν, Node) :=
  if source <+: entry.1 then some ⟨target ++ entry.1.drop source.length, entry.2⟩
  else if target <+: entry.1 then none
  else some entry

/-- What is at or below `source` goes to `target`, in place of what is there. -/
def relocate (source target : List ν) (files : FileSystem ν) : FileSystem ν :=
  (files.entries.filterMap (relocateEntry source target)).toAList

/-- `rename`: a file may replace a file, a directory may replace an empty directory. -/
def rename (source target : List ν) (files : FileSystem ν) : Except IoError (FileSystem ν) :=
  match files.lookup source with
  | none => .error .notFound
  | some node =>
    (files.openDirectory target.dropLast).bind fun _ =>
      if source = target then .ok files
      else if source <+: target then .error .invalidInput
      else
        match node, files.lookup target with
        | .file _, some .directory => .error .isADirectory
        | .directory, some (.file _) => .error .notADirectory
        | .directory, some .directory =>
          if files.isEmpty target then .ok (files.relocate source target)
          else .error .directoryNotEmpty
        | _, _ => .ok (files.relocate source target)

/-! ### What an operation leaves at a path -/

theorem lookup_addNode {node : Node} {path : List ν} {files next : FileSystem ν}
    (added : files.addNode node path = .ok next) :
    files.lookup path = none ∧
      ∀ other, next.lookup other = if other = path then some node else files.lookup other := by
  unfold addNode at added
  cases found : files.lookup path with
  | some present =>
      simp only [found] at added
      cases added
  | none =>
      simp only [found] at added
      refine ⟨rfl, ?_⟩
      intro other
      cases opened : files.openDirectory path.dropLast with
      | error error =>
          simp only [opened, Except.map] at added
          cases added
      | ok =>
          simp only [opened, Except.map] at added
          cases added
          exact Table.lookup_insert_eq files path other node

theorem lookup_append_of_ne {path other : List ν} (different : other ≠ path) (bytes : Bytes)
    (files : FileSystem ν) : (files.append path bytes).lookup other = files.lookup other := by
  unfold append
  split
  next content found =>
    rw [Table.lookup_insert_eq, if_neg different]
  next => rfl

theorem lookup_append_self {path : List ν} {files : FileSystem ν} {content : Bytes}
    (found : files.lookup path = some (.file content)) (bytes : Bytes) :
    (files.append path bytes).lookup path = some (.file (content ++ bytes)) := by
  simp [append, found, Table.lookup_insert_eq]

theorem lookup_removeFile {path : List ν} {files next : FileSystem ν}
    (removed : files.removeFile path = .ok next) (other : List ν) :
    next.lookup other = if other = path then none else files.lookup other := by
  unfold removeFile at removed
  split at removed
  next =>
    cases removed
    exact Table.lookup_erase_eq files path other
  next => cases removed
  next => cases removed

/-- What `relocateEntry` does to an entry, by where the entry is. -/
theorem relocateEntry_cases (source target : List ν) (entry : Σ _ : List ν, Node) :
    (∃ rest, entry.1 = source ++ rest ∧
      relocateEntry source target entry = some ⟨target ++ rest, entry.2⟩) ∨
    (¬ source <+: entry.1 ∧ target <+: entry.1 ∧ relocateEntry source target entry = none) ∨
    (¬ source <+: entry.1 ∧ ¬ target <+: entry.1 ∧
      relocateEntry source target entry = some entry) := by
  unfold relocateEntry
  by_cases moved : source <+: entry.1
  · obtain ⟨rest, isRest⟩ := moved
    refine Or.inl ⟨rest, isRest.symm, ?_⟩
    rw [← isRest]
    simp
  · by_cases dropped : target <+: entry.1
    · simp [moved, dropped]
    · simp [moved, dropped]

theorem lookup_relocate_target (source target rest : List ν) (files : FileSystem ν) :
    (files.relocate source target).lookup (target ++ rest) = files.lookup (source ++ rest) := by
  rw [relocate, AList.lookup_to_alist, AList.lookup]
  induction files.entries with
  | nil => rfl
  | cons entry entries inductionHypothesis =>
      obtain ⟨tail, isMoved, relocated⟩ | ⟨fromSource, inTarget, relocated⟩ |
        ⟨fromSource, fromTarget, relocated⟩ := relocateEntry_cases source target entry
      · rw [List.filterMap_cons_some relocated]
        obtain ⟨key, node⟩ := entry
        change key = source ++ tail at isMoved
        subst isMoved
        by_cases same : rest = tail
        · subst same
          rw [List.dlookup_cons_eq, List.dlookup_cons_eq]
        · rw [List.dlookup_cons_ne _ _ (by simpa using same),
            List.dlookup_cons_ne _ _ (by simpa using same)]
          exact inductionHypothesis
      · have elsewhere : source ++ rest ≠ entry.1 := by
          intro same
          exact fromSource ⟨rest, same⟩
        rw [List.filterMap_cons_none relocated, List.dlookup_cons_ne _ _ elsewhere]
        exact inductionHypothesis
      · have elsewhere : source ++ rest ≠ entry.1 := by
          intro same
          exact fromSource ⟨rest, same⟩
        have different : target ++ rest ≠ entry.1 := by
          intro same
          exact fromTarget ⟨rest, same⟩
        rw [List.filterMap_cons_some relocated, List.dlookup_cons_ne _ _ different,
          List.dlookup_cons_ne _ _ elsewhere]
        exact inductionHypothesis

theorem lookup_relocate_source {source target path : List ν} (fromTarget : ¬ target <+: path)
    (inSource : source <+: path) (files : FileSystem ν) :
    (files.relocate source target).lookup path = none := by
  rw [relocate, AList.lookup_to_alist, List.dlookup_eq_none]
  intro member
  obtain ⟨node, inEntries⟩ := List.exists_of_mem_keys member
  obtain ⟨entry, _, relocated⟩ := List.mem_filterMap.mp inEntries
  obtain ⟨tail, _, isMoved⟩ | ⟨_, _, isDropped⟩ | ⟨fromSource, _, isKept⟩ :=
    relocateEntry_cases source target entry
  · rw [isMoved] at relocated
    cases relocated
    exact fromTarget ⟨tail, rfl⟩
  · rw [isDropped] at relocated
    cases relocated
  · rw [isKept] at relocated
    cases relocated
    exact fromSource inSource

theorem lookup_relocate_of_not {source target path : List ν} (fromTarget : ¬ target <+: path)
    (fromSource : ¬ source <+: path) (files : FileSystem ν) :
    (files.relocate source target).lookup path = files.lookup path := by
  rw [relocate, AList.lookup_to_alist, AList.lookup]
  induction files.entries with
  | nil => rfl
  | cons entry entries inductionHypothesis =>
      obtain ⟨tail, isMoved, relocated⟩ | ⟨_, inTarget, relocated⟩ | ⟨_, _, relocated⟩ :=
        relocateEntry_cases source target entry
      · have elsewhere : path ≠ entry.1 := by
          intro same
          exact fromSource ⟨tail, (same.trans isMoved).symm⟩
        have different : path ≠ target ++ tail := by
          intro same
          exact fromTarget ⟨tail, same.symm⟩
        rw [List.filterMap_cons_some relocated, List.dlookup_cons_ne _ _ different,
          List.dlookup_cons_ne _ _ elsewhere]
        exact inductionHypothesis
      · have elsewhere : path ≠ entry.1 := by
          intro same
          exact fromTarget (same ▸ inTarget)
        rw [List.filterMap_cons_none relocated, List.dlookup_cons_ne _ _ elsewhere]
        exact inductionHypothesis
      · rw [List.filterMap_cons_some relocated]
        obtain ⟨key, node⟩ := entry
        by_cases same : path = key
        · subst same
          rw [List.dlookup_cons_eq, List.dlookup_cons_eq]
        · rw [List.dlookup_cons_ne _ _ same, List.dlookup_cons_ne _ _ same]
          exact inductionHypothesis

theorem rename_self {path : List ν} {files next : FileSystem ν}
    (renamed : files.rename path path = .ok next) : next = files := by
  unfold rename at renamed
  cases found : files.lookup path with
  | none =>
      simp only [found] at renamed
      cases renamed
  | some node =>
      simp only [found] at renamed
      cases opened : files.openDirectory path.dropLast with
      | error error =>
          simp only [opened, Except.bind] at renamed
          cases renamed
      | ok =>
          simp only [opened, Except.bind, if_true] at renamed
          cases renamed
          rfl

theorem rename_relocates {source target : List ν} {files next : FileSystem ν}
    (renamed : files.rename source target = .ok next) (different : source ≠ target) :
    (∃ node, files.lookup source = some node) ∧ next = files.relocate source target := by
  unfold rename at renamed
  cases found : files.lookup source with
  | none =>
      simp only [found] at renamed
      cases renamed
  | some node =>
      refine ⟨⟨node, rfl⟩, ?_⟩
      simp only [found] at renamed
      cases opened : files.openDirectory target.dropLast with
      | error error =>
          simp only [opened, Except.bind] at renamed
          cases renamed
      | ok =>
          simp only [opened, Except.bind, different, if_false] at renamed
          split at renamed
          · cases renamed
          · split at renamed
            · cases renamed
            · cases renamed
            · split at renamed
              · cases renamed
                rfl
              · cases renamed
            · cases renamed
              rfl

end FileSystem

/-! ### Programs -/

/-- One operation fails: the error it reports, and how many bytes a write still wrote. -/
structure Fault where
  error : IoError
  written : Nat
deriving DecidableEq, Repr

/-- The tree, and for each of the next operations whether it fails.  Operations after
the last listed one do not. -/
structure World (ν : Type u) where
  files : FileSystem ν
  faults : List (Option Fault)

/-- Programs over a file system. -/
abbrev Io (ν : Type u) (ε : Type u) (α : Type u) := ExceptT ε (StateM (World ν)) α

namespace Io

section Operations

variable {ν : Type} [DecidableEq ν]

/-- One operation.  `spoil` is what a fault leaves of the tree. -/
def operation (act : FileSystem ν → Except IoError (FileSystem ν))
    (spoil : Nat → FileSystem ν → FileSystem ν) : Io ν IoError Unit :=
  ExceptT.mk fun world =>
    match world.faults.head?.join with
    | some fault =>
      (.error fault.error, ⟨spoil fault.written world.files, world.faults.tail⟩)
    | none =>
      match act world.files with
      | .ok files => (.ok (), ⟨files, world.faults.tail⟩)
      | .error error => (.error error, ⟨world.files, world.faults.tail⟩)

/-- `fs::create_dir`. -/
def createDir (path : List ν) : Io ν IoError Unit :=
  operation (FileSystem.createDir path) fun _ files => files

/-- `OpenOptions::new().write(true).create_new(true).open`. -/
def createNew (path : List ν) : Io ν IoError Unit :=
  operation (FileSystem.createNew path) fun _ files => files

/-- `File::write_all` on the open file. -/
def writeAll (path : List ν) (bytes : Bytes) : Io ν IoError Unit :=
  operation (fun files => .ok (files.append path bytes)) fun written files =>
    files.append path (bytes.take written)

/-- `File::sync_all`. -/
def syncAll : Io ν IoError Unit :=
  operation .ok fun _ files => files

/-- `fs::rename`. -/
def rename (source target : List ν) : Io ν IoError Unit :=
  operation (FileSystem.rename source target) fun _ files => files

/-- `fs::remove_file`. -/
def removeFile (path : List ν) : Io ν IoError Unit :=
  operation (FileSystem.removeFile path) fun _ files => files

/-- `Path::is_dir`: a failing look counts as no directory. -/
def isDir {ε : Type} (path : List ν) : Io ν ε Bool :=
  ExceptT.mk fun world =>
    match world.faults.head?.join with
    | some _ => (.ok false, ⟨world.files, world.faults.tail⟩)
    | none => (.ok (world.files.isDirectory path), ⟨world.files, world.faults.tail⟩)

/-- The tree as a reader finds it. -/
def readTree {ε : Type} : Io ν ε (FileSystem ν) :=
  ExceptT.mk fun world => (.ok world.files, world)

/-- An operation whose error is dropped. -/
def ignore {ε : Type} (program : Io ν IoError Unit) : Io ν ε Unit :=
  ExceptT.mk fun world => (.ok (), (program.run world).2)

/-- A failed `mkdir` is no error when the directory is there. -/
def unlessThere (directory : List ν) (error : IoError) : Io ν IoError Unit := do
  if ← isDir directory then pure () else throw error

/-- `fs::create_dir_all` of the first `depth` names: try the directory itself, and if
its parent is missing, make the parents and try again. -/
def createDirs (path : List ν) : (depth : Nat) → Io ν IoError Unit
  | 0 => pure ()
  | depth + 1 =>
    tryCatch (createDir (path.take (depth + 1))) fun error =>
      if error = .notFound then do
        createDirs path depth
        tryCatch (createDir (path.take (depth + 1))) (unlessThere (path.take (depth + 1)))
      else unlessThere (path.take (depth + 1)) error

/-- `fs::create_dir_all`. -/
def createDirAll (path : List ν) : Io ν IoError Unit := createDirs path path.length

end Operations

/-! ### What a program ensures -/

section Rules

variable {ν ε ε' α β : Type} {files : FileSystem ν}

/-- Whatever operations fail: if the program returns a value then `good`, and if it
returns an error then `bad`. -/
def Ensures (program : Io ν ε α) (files : FileSystem ν) (good : α → FileSystem ν → Prop)
    (bad : ε → FileSystem ν → Prop) : Prop :=
  ∀ faults,
    match program.run ⟨files, faults⟩ with
    | (.ok value, world) => good value world.files
    | (.error error, world) => bad error world.files

variable {good middle : α → FileSystem ν → Prop} {bad : ε → FileSystem ν → Prop}

theorem ensures_pure {value : α} (holds : good value files) :
    Ensures (pure value : Io ν ε α) files good bad :=
  fun _ => holds

theorem ensures_throw {error : ε} (holds : bad error files) :
    Ensures (throw error : Io ν ε α) files good bad :=
  fun _ => holds

theorem ensures_trivial (program : Io ν ε α) (files : FileSystem ν) :
    Ensures program files (fun _ _ => True) fun _ _ => True := by
  intro faults
  split
  · trivial
  · trivial

/-- A program continues where the one before it stopped. -/
theorem run_bind (program : Io ν ε α) (next : α → Io ν ε β) (world : World ν) :
    (program >>= next).run world =
      match program.run world with
      | (.ok value, after) => (next value).run after
      | (.error error, after) => (.error error, after) := by
  change (match program.run world with
    | (result, after) => ExceptT.bindCont next result after) = _
  rcases program.run world with ⟨_ | _, _⟩ <;> rfl

theorem run_tryCatch (program : Io ν ε α) (handler : ε → Io ν ε α) (world : World ν) :
    (tryCatch program handler).run world =
      match program.run world with
      | (.ok value, after) => (.ok value, after)
      | (.error error, after) => (handler error).run after := by
  change (match program.run world with
    | (result, after) =>
      (match result with
        | .ok value => pure (.ok value)
        | .error error => (handler error).run : StateM (World ν) (Except ε α)) after) = _
  rcases program.run world with ⟨_ | _, _⟩ <;> rfl

theorem run_adapt (convert : ε → ε') (program : Io ν ε α) (world : World ν) :
    (ExceptT.adapt convert program).run world =
      match program.run world with
      | (.ok value, after) => (.ok value, after)
      | (.error error, after) => (.error (convert error), after) := by
  change (match program.run world with
    | (result, after) => (result.mapError convert, after)) = _
  rcases program.run world with ⟨_ | _, _⟩ <;> rfl

theorem Ensures.bind {program : Io ν ε α} {next : α → Io ν ε β} {last : β → FileSystem ν → Prop}
    (first : Ensures program files middle bad)
    (second : ∀ value after, middle value after → Ensures (next value) after last bad) :
    Ensures (program >>= next) files last bad := by
  intro faults
  have done := first faults
  rw [run_bind]
  cases ran : program.run ⟨files, faults⟩ with
  | mk result after =>
      rw [ran] at done
      cases result with
      | error error => exact done
      | ok value => exact second value after.files done after.faults

theorem Ensures.tryCatch {program : Io ν ε α} {handler : ε → Io ν ε α}
    {failed : ε → FileSystem ν → Prop} (first : Ensures program files good failed)
    (second : ∀ error after, failed error after → Ensures (handler error) after good bad) :
    Ensures (tryCatch program handler) files good bad := by
  intro faults
  have done := first faults
  rw [run_tryCatch]
  cases ran : program.run ⟨files, faults⟩ with
  | mk result after =>
      rw [ran] at done
      cases result with
      | error error => exact second error after.files done after.faults
      | ok value => exact done

theorem Ensures.adapt {program : Io ν ε α} {convert : ε → ε'} {fails : ε' → FileSystem ν → Prop}
    (first : Ensures program files good fun error => fails (convert error)) :
    Ensures (ExceptT.adapt convert program) files good fails := by
  intro faults
  have done := first faults
  rw [run_adapt]
  cases ran : program.run ⟨files, faults⟩ with
  | mk result after =>
      rw [ran] at done
      cases result with
      | error error => exact done
      | ok value => exact done

/-- Weaker postconditions. -/
theorem Ensures.weaken {program : Io ν ε α} {failed : ε → FileSystem ν → Prop}
    (strong : Ensures program files middle failed)
    (onValue : ∀ value after, middle value after → good value after)
    (onError : ∀ error after, failed error after → bad error after) :
    Ensures program files good bad := by
  intro faults
  have done := strong faults
  cases ran : program.run ⟨files, faults⟩ with
  | mk result after =>
      rw [ran] at done
      cases result with
      | error error => exact onError error after.files done
      | ok value => exact onValue value after.files done

theorem Ensures.ignore {program : Io ν IoError Unit} {good : Unit → FileSystem ν → Prop}
    (first : Ensures program files good fun _ => good ()) :
    Ensures (ignore program : Io ν ε Unit) files good bad := by
  intro faults
  have done := first faults
  change good () (program.run ⟨files, faults⟩).2.files
  cases ran : program.run ⟨files, faults⟩ with
  | mk result after =>
      rw [ran] at done
      cases result with
      | error error => exact done
      | ok value => exact done

end Rules

/-! ### What an operation ensures -/

section Specifications

variable {ν ε : Type}

theorem ensures_operation (act : FileSystem ν → Except IoError (FileSystem ν))
    (spoil : Nat → FileSystem ν → FileSystem ν) (files : FileSystem ν) :
    Ensures (operation act spoil) files (fun _ after => act files = .ok after)
      fun _ after => after = files ∨ ∃ written, after = spoil written files := by
  intro faults
  simp only [operation, ExceptT.run_mk]
  cases faults.head?.join with
  | some fault => exact Or.inr ⟨fault.written, rfl⟩
  | none =>
      cases acted : act files with
      | ok after => simp
      | error error => exact Or.inl rfl

/-- An operation that a fault does not spoil. -/
theorem ensures_atomic (act : FileSystem ν → Except IoError (FileSystem ν))
    (files : FileSystem ν) :
    Ensures (operation act fun _ files => files) files (fun _ after => act files = .ok after)
      fun _ after => after = files := by
  apply (ensures_operation act (fun _ files => files) files).weaken
  · exact fun _ _ acted => acted
  · intro error after spoiled
    obtain same | ⟨_, same⟩ := spoiled
    · exact same
    · exact same

theorem ensures_readTree (files : FileSystem ν) (bad : ε → FileSystem ν → Prop) :
    Ensures (readTree : Io ν ε (FileSystem ν)) files
      (fun tree after => tree = files ∧ after = files) bad :=
  fun _ => ⟨rfl, rfl⟩

variable [DecidableEq ν]

theorem ensures_isDir (path : List ν) (files : FileSystem ν) (bad : ε → FileSystem ν → Prop) :
    Ensures (isDir path : Io ν ε Bool) files
      (fun there after => after = files ∧ (there = true → files.lookup path = some .directory))
      bad := by
  intro faults
  simp only [isDir, ExceptT.run_mk]
  cases faults.head?.join with
  | some fault => exact ⟨rfl, fun isTrue => by cases isTrue⟩
  | none => exact ⟨rfl, fun isTrue => by simpa [FileSystem.isDirectory] using isTrue⟩

/-- Some missing directories on the way to `path` are there now. -/
def DirectoriesAdded (path : List ν) (files after : FileSystem ν) : Prop :=
  ∀ other, after.lookup other = files.lookup other ∨
    files.lookup other = none ∧ after.lookup other = some .directory ∧ other <+: path

theorem DirectoriesAdded.refl (path : List ν) (files : FileSystem ν) :
    DirectoriesAdded path files files :=
  fun _ => Or.inl rfl

theorem DirectoriesAdded.trans {path : List ν} {files middle after : FileSystem ν}
    (first : DirectoriesAdded path files middle) (second : DirectoriesAdded path middle after) :
    DirectoriesAdded path files after := by
  intro other
  obtain same | ⟨missing, there, above⟩ := second other
  · rw [same]
    exact first other
  · obtain same | ⟨_, added, _⟩ := first other
    · exact Or.inr ⟨same ▸ missing, there, above⟩
    · rw [added] at missing
      cases missing

theorem ensures_createDir_take (path : List ν) (depth : Nat) (files : FileSystem ν) :
    Ensures (createDir (path.take depth)) files (fun _ => DirectoriesAdded path files)
      fun _ after => after = files := by
  apply (ensures_atomic (FileSystem.createDir (path.take depth)) files).weaken
  · intro _ after created
    obtain ⟨missing, lookups⟩ := FileSystem.lookup_addNode created
    intro other
    by_cases same : other = path.take depth
    · refine Or.inr ⟨same ▸ missing, ?_, same ▸ List.take_prefix depth path⟩
      rw [lookups, if_pos same]
    · exact Or.inl (by rw [lookups, if_neg same])
  · exact fun _ _ same => same

theorem ensures_unlessThere (path directory : List ν) (error : IoError) (files : FileSystem ν) :
    Ensures (unlessThere directory error) files (fun _ => DirectoriesAdded path files)
      fun _ => DirectoriesAdded path files := by
  apply (ensures_isDir directory files _).bind
  intro there after looked
  rw [looked.1]
  cases there with
  | true => exact ensures_pure (DirectoriesAdded.refl path files)
  | false => exact ensures_throw (DirectoriesAdded.refl path files)

theorem ensures_createDirs (path : List ν) (depth : Nat) (files : FileSystem ν) :
    Ensures (createDirs path depth) files (fun _ => DirectoriesAdded path files)
      fun _ => DirectoriesAdded path files := by
  induction depth generalizing files with
  | zero => exact ensures_pure (DirectoriesAdded.refl path files)
  | succ depth inductionHypothesis =>
      apply (ensures_createDir_take path (depth + 1) files).tryCatch
      intro error after same
      rw [same]
      split
      · apply (inductionHypothesis files).bind
        intro _ parents added
        have again : Ensures (createDir (path.take (depth + 1))) parents
            (fun _ => DirectoriesAdded path files) fun _ after => after = parents :=
          (ensures_createDir_take path (depth + 1) parents).weaken
            (fun _ _ more => added.trans more) fun _ _ same => same
        apply again.tryCatch
        intro error after same
        rw [same]
        exact (ensures_unlessThere path (path.take (depth + 1)) error parents).weaken
          (fun _ _ more => added.trans more) fun _ _ more => added.trans more
      · exact ensures_unlessThere path (path.take (depth + 1)) error files

/-- `create_dir_all` adds nothing but directories on the way to its path. -/
theorem ensures_createDirAll (path : List ν) (files : FileSystem ν) :
    Ensures (createDirAll path) files (fun _ => DirectoriesAdded path files)
      fun _ => DirectoriesAdded path files :=
  ensures_createDirs path path.length files

end Specifications

end Io

end SmartFecTunnel.Library
