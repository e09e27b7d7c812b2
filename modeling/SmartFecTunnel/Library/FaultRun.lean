import SmartFecTunnel.Library.FileSystem

/-!
Contract: running a program over a file system operation by operation.

Owns:
- when an operation succeeds, and what a rename does to the entries of a directory;
- `onlyFault`, the choice of faults in which one operation fails, and how operations
  run under it;
- `Traced`, what a program leaves by which of its operations fails, with a rule for
  each way to go on after an operation.

Does not own: programs.
-/

namespace SmartFecTunnel.Library

namespace FileSystem

variable {ν : Type} [DecidableEq ν] {files : FileSystem ν}

/-! ### Operations that succeed -/

theorem openDirectory_of_directory {directory : List ν}
    (isDirectory : files.lookup directory = some .directory) :
    files.openDirectory directory = .ok () := by
  rw [openDirectory, isDirectory]

theorem createNew_of_absent {directory : List ν} {name : ν}
    (isDirectory : files.lookup directory = some .directory)
    (absent : files.lookup (directory ++ [name]) = none) :
    files.createNew (directory ++ [name]) =
      .ok (files.insert (directory ++ [name]) (.file [])) := by
  simp [createNew, addNode, absent, openDirectory_of_directory isDirectory, Except.map]

theorem removeFile_of_file {path : List ν} {content : Bytes}
    (isFile : files.lookup path = some (.file content)) :
    files.removeFile path = .ok (files.erase path) := by
  simp [removeFile, isFile]

/-- A file takes the place of a file or of nothing. -/
theorem rename_file {source directory : List ν} {name : ν} {content : Bytes}
    (isFile : files.lookup source = some (.file content))
    (isDirectory : files.lookup directory = some .directory)
    (apart : ¬ source <+: directory ++ [name])
    (noDirectory : files.lookup (directory ++ [name]) ≠ some .directory) :
    files.rename source (directory ++ [name]) =
      .ok (files.relocate source (directory ++ [name])) := by
  have different : source ≠ directory ++ [name] := fun same => apart (same ▸ List.prefix_rfl)
  have parent := openDirectory_of_directory isDirectory
  cases held : files.lookup (directory ++ [name]) with
  | none => simp [rename, isFile, parent, Except.bind, different, apart, held]
  | some node =>
    cases node with
    | directory => exact absurd held noDirectory
    | file => simp [rename, isFile, parent, Except.bind, different, apart, held]

/-- Anything moves where nothing is. -/
theorem rename_vacant {source directory : List ν} {name : ν} {node : Node}
    (isSource : files.lookup source = some node)
    (isDirectory : files.lookup directory = some .directory)
    (apart : ¬ source <+: directory ++ [name])
    (vacant : files.lookup (directory ++ [name]) = none) :
    files.rename source (directory ++ [name]) =
      .ok (files.relocate source (directory ++ [name])) := by
  have different : source ≠ directory ++ [name] := fun same => apart (same ▸ List.prefix_rfl)
  simp [rename, isSource, openDirectory_of_directory isDirectory, Except.bind, different, apart,
    vacant]

/-! ### What a success says -/

theorem directory_of_openDirectory {directory : List ν}
    (opened : files.openDirectory directory = .ok ()) :
    files.lookup directory = some .directory := by
  unfold openDirectory at opened
  split at opened
  next found => exact found
  next => cases opened
  next => cases opened

theorem of_createNew {directory : List ν} {name : ν} {next : FileSystem ν}
    (created : files.createNew (directory ++ [name]) = .ok next) :
    files.lookup directory = some .directory ∧ files.lookup (directory ++ [name]) = none ∧
      next = files.insert (directory ++ [name]) (.file []) := by
  have absent := (lookup_addNode created).1
  simp only [createNew, addNode, absent, List.dropLast_concat] at created
  cases opened : files.openDirectory directory with
  | error error =>
      rw [opened] at created
      cases created
  | ok =>
      rw [opened] at created
      cases created
      exact ⟨directory_of_openDirectory opened, absent, rfl⟩

theorem of_removeFile {path : List ν} {next : FileSystem ν}
    (removed : files.removeFile path = .ok next) :
    (∃ content, files.lookup path = some (.file content)) ∧ next = files.erase path := by
  unfold removeFile at removed
  split at removed
  next content found =>
    cases removed
    exact ⟨⟨content, found⟩, rfl⟩
  next => cases removed
  next => cases removed

/-- A file does not take the place of a directory. -/
theorem noDirectory_of_rename {source target : List ν} {content : Bytes} {next : FileSystem ν}
    (isFile : files.lookup source = some (.file content)) (different : source ≠ target)
    (renamed : files.rename source target = .ok next) :
    files.lookup target ≠ some .directory := by
  intro isDirectory
  simp only [rename, isFile, isDirectory, if_neg different] at renamed
  cases opened : files.openDirectory target.dropLast with
  | error error =>
      rw [opened] at renamed
      cases renamed
  | ok =>
      rw [opened] at renamed
      simp only [Except.bind] at renamed
      split at renamed
      · cases renamed
      · cases renamed

theorem isEmpty_iff {path : List ν} :
    files.isEmpty path = true ↔ ∀ rest, rest ≠ [] → files.lookup (path ++ rest) = none := by
  simp only [isEmpty, List.all_eq_true, decide_eq_true_eq, AList.lookup_eq_none, AList.mem_keys]
  constructor
  · intro empty rest notEmpty member
    apply empty (path ++ rest) member
    simpa using notEmpty
  · intro nothing key member below
    obtain ⟨⟨rest, rfl⟩, different⟩ := below
    exact nothing rest (by simpa using different) member

/-- Whether a rename succeeds depends on the source, the directory that the target is in,
and the target with what is below it. -/
theorem rename_congr {source target : List ν} {files other next : FileSystem ν}
    (sameSource : other.lookup source = files.lookup source)
    (sameParent : other.lookup target.dropLast = files.lookup target.dropLast)
    (sameTarget : ∀ rest, other.lookup (target ++ rest) = files.lookup (target ++ rest))
    (renamed : files.rename source target = .ok next) :
    ∃ after, other.rename source target = .ok after := by
  have sameEmpty : other.isEmpty target = files.isEmpty target := by
    rw [Bool.eq_iff_iff, isEmpty_iff, isEmpty_iff]
    simp only [sameTarget]
  have sameNode := sameTarget []
  rw [List.append_nil] at sameNode
  unfold rename openDirectory at renamed ⊢
  rw [sameSource, sameParent, sameNode, sameEmpty]
  cases found : files.lookup source with
  | none =>
      rw [found] at renamed
      cases renamed
  | some node =>
      simp only [found] at renamed ⊢
      cases parent : files.lookup target.dropLast with
      | none =>
          rw [parent] at renamed
          cases renamed
      | some above =>
          rw [parent] at renamed
          cases above with
          | file => cases renamed
          | directory =>
              simp only [Except.bind] at renamed ⊢
              grind

/-! ### Entries of one directory -/

omit [DecidableEq ν] in
theorem sibling_prefix_iff {directory : List ν} {left right : ν} :
    directory ++ [left] <+: directory ++ [right] ↔ left = right := by
  rw [List.prefix_append_right_inj, List.cons_prefix_cons]
  simp

theorem lookup_relocate_sibling {directory : List ν} {source target : ν}
    (different : source ≠ target) (other : ν) (files : FileSystem ν) :
    (files.relocate (directory ++ [source]) (directory ++ [target])).lookup (directory ++ [other]) =
      if other = target then files.lookup (directory ++ [source])
      else if other = source then none
      else files.lookup (directory ++ [other]) := by
  by_cases isTarget : other = target
  · subst isTarget
    rw [if_pos rfl]
    have arrived := lookup_relocate_target (directory ++ [source]) (directory ++ [other]) [] files
    rw [List.append_nil, List.append_nil] at arrived
    exact arrived
  · have fromTarget : ¬ directory ++ [target] <+: directory ++ [other] := by
      rw [sibling_prefix_iff]
      exact Ne.symm isTarget
    rw [if_neg isTarget]
    by_cases isSource : other = source
    · subst isSource
      rw [if_pos rfl]
      exact lookup_relocate_source fromTarget List.prefix_rfl files
    · rw [if_neg isSource]
      apply lookup_relocate_of_not fromTarget
      rw [sibling_prefix_iff]
      exact Ne.symm isSource

end FileSystem

/-! ### Faults -/

/-- Operation number `position` fails, and no other. -/
def onlyFault (position : Nat) (fault : Fault) : List (Option Fault) :=
  List.replicate position none ++ [some fault]

@[simp] theorem onlyFault_zero (fault : Fault) : onlyFault 0 fault = [some fault] := rfl

@[simp] theorem onlyFault_succ (position : Nat) (fault : Fault) :
    onlyFault (position + 1) fault = none :: onlyFault position fault := rfl

namespace Io

variable {ν : Type} {files next : FileSystem ν} {faults : List (Option Fault)}
  {act : FileSystem ν → Except IoError (FileSystem ν)}
  {spoil : Nat → FileSystem ν → FileSystem ν}

/-- An operation that does not fail. -/
theorem run_operation (acted : act files = .ok next) (clear : faults.head?.join = none) :
    (operation act spoil).run ⟨files, faults⟩ = (.ok (), ⟨next, faults.tail⟩) := by
  simp [operation, acted, clear, ExceptT.run_mk]

/-- An operation that the tree does not allow. -/
theorem run_operation_error {error : IoError} (refused : act files = .error error)
    (clear : faults.head?.join = none) :
    (operation act spoil).run ⟨files, faults⟩ = (.error error, ⟨files, faults.tail⟩) := by
  simp [operation, refused, clear, ExceptT.run_mk]

variable {ε α τ : Type}

@[simp] theorem run_ignore (program : Io ν IoError Unit) (world : World ν) :
    (ignore program : Io ν ε Unit).run world = (.ok (), (program.run world).2) := rfl

/-! ### Which operation fails -/

/-- At most one operation fails, and `outcome` says what that leaves.  It is given which of
the listed operations fails, and `none` when the program ends before the failing one. -/
structure Traced (program : Io ν ε α) (files : FileSystem ν) (operations : List τ)
    (outcome : Option τ → Except ε α × World ν → Prop) : Prop where
  undisturbed : outcome none (program.run ⟨files, []⟩)
  disturbed : ∀ position fault,
    outcome operations[position]? (program.run ⟨files, onlyFault position fault⟩)

variable {first : τ} {operations : List τ} {outcome : Option τ → Except IoError α × World ν → Prop}
  {rest : Unit → Io ν IoError α}

/-- The end of a program. -/
theorem Traced.pure {value : α}
    (done : ∀ faults, outcome none (.ok value, ⟨files, faults⟩)) :
    Traced (Pure.pure value : Io ν IoError α) files [] outcome :=
  ⟨done [], fun position fault => done (onlyFault position fault)⟩

/-- An operation, and what follows. -/
theorem Traced.operation_bind (acted : act files = .ok next)
    (fails : ∀ fault : Fault,
      outcome (some first) (.error fault.error, ⟨spoil fault.written files, []⟩))
    (goes : Traced (rest ()) next operations outcome) :
    Traced (operation act spoil >>= rest) files (first :: operations) outcome := by
  constructor
  · rw [run_bind, run_operation acted rfl]
    exact goes.undisturbed
  · intro position fault
    cases position with
    | zero => exact fails fault
    | succ position =>
        rw [run_bind, run_operation acted rfl]
        exact goes.disturbed position fault

/-- A write, and what follows. -/
theorem Traced.writeAll_bind [DecidableEq ν] {path : List ν} {bytes : Bytes}
    (fails : ∀ fault : Fault, outcome (some first)
      (.error fault.error, ⟨files.append path (bytes.take fault.written), []⟩))
    (goes : Traced (rest ()) (files.append path bytes) operations outcome) :
    Traced (writeAll path bytes >>= rest) files (first :: operations) outcome := by
  unfold writeAll
  exact Traced.operation_bind rfl fails goes

/-- An operation with a handler, and what follows. -/
theorem Traced.tryCatch_bind {handler : IoError → Io ν IoError Unit} (acted : act files = .ok next)
    (fails : ∀ fault : Fault, outcome (some first)
      ((handler fault.error >>= rest).run ⟨spoil fault.written files, []⟩))
    (goes : Traced (rest ()) next operations outcome) :
    Traced (tryCatch (operation act spoil) handler >>= rest) files (first :: operations)
      outcome := by
  constructor
  · rw [run_bind, run_tryCatch, run_operation acted rfl]
    exact goes.undisturbed
  · intro position fault
    rw [run_bind, run_tryCatch]
    cases position with
    | zero =>
        have failed := fails fault
        rw [run_bind] at failed
        exact failed
    | succ position =>
        rw [run_operation acted rfl]
        exact goes.disturbed position fault

/-- The last operation. -/
theorem Traced.last {outcome : Option τ → Except IoError Unit × World ν → Prop}
    (acted : act files = .ok next)
    (fails : ∀ fault : Fault,
      outcome (some first) (.error fault.error, ⟨spoil fault.written files, []⟩))
    (done : ∀ faults, outcome none (.ok (), ⟨next, faults⟩)) :
    Traced (operation act spoil) files [first] outcome := by
  rw [← bind_pure (operation act spoil)]
  exact Traced.operation_bind acted fails (Traced.pure done)

/-! ### Programs that succeed -/

/-- The program returns a value when no operation fails. -/
def Succeeds (program : Io ν ε α) (files : FileSystem ν) : Prop :=
  (program.run ⟨files, []⟩).1.isOk = true

instance (program : Io ν ε α) (files : FileSystem ν) : Decidable (Succeeds program files) :=
  inferInstanceAs (Decidable (_ = _))

theorem not_succeeds_throw {error : ε} : ¬ Succeeds (throw error : Io ν ε α) files :=
  Bool.false_ne_true

/-- What follows cannot fail. -/
theorem succeeds_adapt_iff {ε' β : Type} {convert : ε → ε'} {program : Io ν ε α} {value : β} :
    Succeeds (do
        let _ ← ExceptT.adapt convert program
        return value) files ↔ Succeeds program files := by
  unfold Succeeds
  rw [run_bind, run_adapt]
  cases program.run ⟨files, []⟩ with
  | mk result world =>
      cases result with
      | ok other => rfl
      | error error => rfl

theorem succeeds_isDir_iff [DecidableEq ν] {path : List ν} {rest : Bool → Io ν ε α} :
    Succeeds (isDir path >>= rest) files ↔ Succeeds (rest (files.isDirectory path)) files := by
  unfold Succeeds
  rw [run_bind]
  rfl

theorem Succeeds.of_operation_bind {rest : Unit → Io ν IoError α}
    (succeeds : Succeeds (operation act spoil >>= rest) files) :
    ∃ next, act files = .ok next ∧ Succeeds (rest ()) next := by
  unfold Succeeds at succeeds
  rw [run_bind] at succeeds
  cases acted : act files with
  | ok next =>
      rw [run_operation acted rfl] at succeeds
      exact ⟨next, rfl, succeeds⟩
  | error error =>
      rw [run_operation_error acted rfl] at succeeds
      exact absurd succeeds Bool.false_ne_true

/-- With a handler that does not succeed, an operation succeeds or all fails. -/
theorem Succeeds.of_tryCatch_bind {handler : IoError → Io ν IoError Unit}
    {rest : Unit → Io ν IoError α}
    (succeeds : Succeeds (tryCatch (operation act spoil) handler >>= rest) files)
    (throws : ∀ error, ¬ Succeeds (handler error >>= rest) files) :
    ∃ next, act files = .ok next ∧ Succeeds (rest ()) next := by
  unfold Succeeds at succeeds throws
  rw [run_bind, run_tryCatch] at succeeds
  cases acted : act files with
  | ok next =>
      rw [run_operation acted rfl] at succeeds
      exact ⟨next, rfl, succeeds⟩
  | error error =>
      rw [run_operation_error acted rfl] at succeeds
      apply absurd succeeds
      rw [← run_bind]
      exact throws error

theorem Succeeds.of_operation (succeeds : Succeeds (operation act spoil) files) :
    ∃ next, act files = .ok next := by
  rw [← bind_pure (operation act spoil)] at succeeds
  obtain ⟨next, acted, _⟩ := succeeds.of_operation_bind
  exact ⟨next, acted⟩

/-! ### Programs that keep a relation between trees -/

/-- Whatever operations fail, the tree afterwards is related to the tree before. -/
def Stays (related : FileSystem ν → FileSystem ν → Prop) (program : Io ν ε α) : Prop :=
  ∀ files, Ensures program files (fun _ => related files) fun _ => related files

section Stays

variable {related : FileSystem ν → FileSystem ν → Prop}

theorem stays_pure (refl : ∀ files, related files files) (value : α) :
    Stays related (Pure.pure value : Io ν ε α) :=
  fun files => ensures_pure (refl files)

theorem stays_throw (refl : ∀ files, related files files) (error : ε) :
    Stays related (throw error : Io ν ε α) :=
  fun files => ensures_throw (refl files)

theorem Stays.bind {β : Type} {program : Io ν ε α} {rest : α → Io ν ε β}
    (trans : ∀ first second third, related first second → related second third →
      related first third)
    (first : Stays related program) (second : ∀ value, Stays related (rest value)) :
    Stays related (program >>= rest) := by
  intro files
  apply (first files).bind
  intro value middle kept
  exact (second value middle).weaken (fun _ _ more => trans _ _ _ kept more)
    fun _ _ more => trans _ _ _ kept more

theorem Stays.tryCatch {program : Io ν ε α} {handler : ε → Io ν ε α}
    (trans : ∀ first second third, related first second → related second third →
      related first third)
    (first : Stays related program) (second : ∀ error, Stays related (handler error)) :
    Stays related (tryCatch program handler) := by
  intro files
  apply (first files).tryCatch
  intro error middle kept
  exact (second error middle).weaken (fun _ _ more => trans _ _ _ kept more)
    fun _ _ more => trans _ _ _ kept more

theorem Stays.ignore {program : Io ν IoError Unit} (stays : Stays related program) :
    Stays related (ignore program : Io ν ε Unit) :=
  fun files => Ensures.ignore (stays files)

/-- An operation that a fault does not spoil. -/
theorem stays_operation (refl : ∀ files, related files files)
    (acts : ∀ files after, act files = .ok after → related files after) :
    Stays related (operation act fun _ files => files) := by
  intro files
  apply (ensures_atomic act files).weaken
  · exact fun _ after acted => acts files after acted
  · intro error after same
    rw [same]
    exact refl files

end Stays

end Io

end SmartFecTunnel.Library
