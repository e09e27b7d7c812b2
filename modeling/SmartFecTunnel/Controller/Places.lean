import SmartFecTunnel.Controller.Revision

/-!
Contract: the places below the root of the revisions, and what file operations
do to them.

Owns:
- the six kinds of places and that different places are different paths;
- `Keeps` and `Steady`, changes of some places only, with the rules by which
  programs inherit them;
- what `stage`, `write_pointer` and the renames of `commit` leave at each place.

Does not own: which transaction a directory belongs to.
-/

namespace SmartFecTunnel.Controller

open SmartFecTunnel.Library
open SmartFecTunnel.Library.Io (Ensures)

/-! ### Places below the root -/

inductive Place where
  | candidates
  | revisions
  | current
  | temporary
  | candidate (id : Text) (path : List Text)
  | revision (id : Text) (path : List Text)

namespace Place

/-- Where a place is, from the root. -/
def path : Place → List Text
  | .candidates => [candidatesName]
  | .revisions => [revisionsName]
  | .current => [currentName]
  | .temporary => [temporaryName currentName]
  | .candidate id path => candidatesName :: id :: path
  | .revision id path => revisionsName :: id :: path

theorem path_ne_nil (place : Place) : place.path ≠ [] := by
  cases place <;> simp [path]

/-- The directory of a candidate is in that of the candidates. -/
theorem candidate_path (root : List Text) (id : Text) :
    root ++ (candidate id []).path = root ++ candidates.path ++ [id] := by
  simp [path]

theorem revision_path (root : List Text) (id : Text) :
    root ++ (revision id []).path = root ++ revisions.path ++ [id] := by
  simp [path]

theorem names_ne :
    (candidatesName ≠ revisionsName ∧ candidatesName ≠ currentName ∧
      candidatesName ≠ temporaryName currentName) ∧
    (revisionsName ≠ currentName ∧ revisionsName ≠ temporaryName currentName) ∧
    currentName ≠ temporaryName currentName := by
  decide

theorem path_injective {left right : Place} (same : left.path = right.path) : left = right := by
  have distinct := names_ne
  cases left <;> cases right <;> grind [path]

/-- Nothing is below a file of the root. -/
theorem eq_of_append_current {place : Place} {rest : List Text}
    (isBelow : Place.current.path ++ rest = place.path) : place = .current ∧ rest = [] := by
  have distinct := names_ne
  cases place <;> grind [path]

theorem eq_of_append_temporary {place : Place} {rest : List Text}
    (isBelow : Place.temporary.path ++ rest = place.path) : place = .temporary ∧ rest = [] := by
  have distinct := names_ne
  cases place <;> grind [path]

end Place

/-- What is stored at a place. -/
def view (root : List Text) (files : FileSystem Text) (place : Place) : Option Node :=
  files.lookup (root ++ place.path)

/-- Everything below the root is at a place. -/
def Placed (root : List Text) (files : FileSystem Text) : Prop :=
  ∀ path, path ≠ [] → files.lookup (root ++ path) ≠ none → ∃ place : Place, path = place.path

/-! ### Names -/

theorem joinPath_candidatesName (root : List Text) :
    joinPath root candidatesName = root ++ Place.candidates.path :=
  @joinPath_of_normal candidatesName [candidatesName] (by decide) root

theorem joinPath_revisionsName (root : List Text) :
    joinPath root revisionsName = root ++ Place.revisions.path :=
  @joinPath_of_normal revisionsName [revisionsName] (by decide) root

theorem joinPath_currentName (root : List Text) :
    joinPath root currentName = root ++ Place.current.path :=
  @joinPath_of_normal currentName [currentName] (by decide) root

theorem joinPath_temporaryName (root : List Text) :
    joinPath root (temporaryName currentName) = root ++ Place.temporary.path :=
  @joinPath_of_normal (temporaryName currentName) [temporaryName currentName] (by decide) root

/-- The path is one name. -/
theorem joinPath_plain {text name : Text} (plain : components text = [.normal name])
    (path : List Text) : joinPath path text = path ++ [name] :=
  @joinPath_of_normal text [name] plain path

theorem isPlainFileName_iff {value : Text} :
    isPlainFileName value = true ↔ ∃ name, components value = [.normal name] := by
  constructor
  · intro plain
    simp only [isPlainFileName, decide_eq_true_eq] at plain
    obtain ⟨_, single, isNormal⟩ := plain
    obtain ⟨component, isComponent⟩ := List.length_eq_one_iff.mp single
    rw [isComponent] at isNormal ⊢
    cases component with
    | normal name => exact ⟨name, rfl⟩
    | _ => simp at isNormal
  · rintro ⟨name, single⟩
    have notEmpty : value ≠ [] := by
      rintro rfl
      simp [components, component?] at single
    simp [isPlainFileName, single, notEmpty]

theorem mem_revisionName {nanos process : Nat} {char : Char}
    (member : char ∈ revisionName nanos process) :
    char ∈ "rev-".toList ∨ char.isDigit = true := by
  -- `unfold` would compute the equation of the name, and that evaluates its texts.
  obtain front | inProcess := List.mem_append.mp member
  obtain names | inDash := List.mem_append.mp front
  obtain inPrefix | inNanos := List.mem_append.mp names
  · exact Or.inl inPrefix
  · exact Or.inr (Nat.isDigit_of_mem_toDigits (by decide) (by decide) inNanos)
  · rw [show "-".toList = ['-'] from rfl, List.mem_singleton] at inDash
    subst inDash
    exact Or.inl (by decide)
  · exact Or.inr (Nat.isDigit_of_mem_toDigits (by decide) (by decide) inProcess)

theorem newline_notMem_revisionName (nanos process : Nat) : '\n' ∉ revisionName nanos process := by
  intro member
  obtain inPrefix | isDigit := mem_revisionName member
  · exact absurd inPrefix (by decide)
  · exact absurd isDigit (by decide)

theorem components_revisionName (nanos process : Nat) :
    components (revisionName nanos process) = [.normal (revisionName nanos process)] := by
  have startsWithR : (revisionName nanos process).head? = some 'r' := rfl
  apply components_of_name
  · intro member
    obtain inPrefix | isDigit := mem_revisionName member
    · exact absurd inPrefix (by decide)
    · exact absurd isDigit (by decide)
  · intro isEmpty
    rw [isEmpty] at startsWithR
    cases startsWithR
  · intro isDot
    rw [isDot] at startsWithR
    exact absurd startsWithR (by decide)
  · intro isDots
    rw [isDots] at startsWithR
    exact absurd startsWithR (by decide)

/-! ### What a call does to the places -/

section Effects

variable {root : List Text} {files after : FileSystem Text}

/-- Only `touched` places change, and nothing appears outside the places. -/
structure Keeps (root : List Text) (touched : Place → Prop) (files after : FileSystem Text) :
    Prop where
  same : ∀ place, ¬ touched place → view root after place = view root files place
  placed : Placed root files → Placed root after

theorem Keeps.refl (touched : Place → Prop) (files : FileSystem Text) :
    Keeps root touched files files :=
  ⟨fun _ _ => rfl, fun placed => placed⟩

theorem Keeps.trans {touched : Place → Prop} {middle : FileSystem Text}
    (first : Keeps root touched files middle) (second : Keeps root touched middle after) :
    Keeps root touched files after where
  same := by
    intro place untouched
    rw [second.same place untouched, first.same place untouched]
  placed := fun placed => second.placed (first.placed placed)

theorem Keeps.mono {touched wider : Place → Prop} (keeps : Keeps root touched files after)
    (included : ∀ place, touched place → wider place) : Keeps root wider files after where
  same := fun place untouched => keeps.same place fun inside => untouched (included place inside)
  placed := keeps.placed

/-- An operation that changes the tree at touched places only. -/
theorem Keeps.of_lookup {touched : Place → Prop}
    (outside : ∀ path, (∀ place, touched place → path ≠ root ++ place.path) →
      after.lookup path = files.lookup path) :
    Keeps root touched files after where
  same := by
    intro place untouched
    apply outside
    intro other isTouched same
    rw [Place.path_injective (List.append_cancel_left same)] at untouched
    exact untouched isTouched
  placed := by
    intro placed path notRoot present
    by_cases isPlace : ∃ place : Place, path = place.path
    · exact isPlace
    · apply placed path notRoot
      rw [← outside (root ++ path)]
      · exact present
      · intro place _ same
        exact isPlace ⟨place, List.append_cancel_left same⟩

/-- What `relocate` leaves at a place that it moves to. -/
theorem view_relocate_target {source target place : Place} {rest : List Text}
    (isTarget : place.path = target.path ++ rest) :
    view root (files.relocate (root ++ source.path) (root ++ target.path)) place =
      files.lookup (root ++ (source.path ++ rest)) := by
  rw [view, isTarget, ← List.append_assoc, FileSystem.lookup_relocate_target, List.append_assoc]

theorem view_relocate_source {source target place : Place}
    (fromTarget : ¬ target.path <+: place.path) (inSource : source.path <+: place.path) :
    view root (files.relocate (root ++ source.path) (root ++ target.path)) place = none := by
  apply FileSystem.lookup_relocate_source
  · rwa [List.prefix_append_right_inj]
  · rwa [List.prefix_append_right_inj]

theorem view_relocate_of_not {source target place : Place}
    (fromTarget : ¬ target.path <+: place.path) (fromSource : ¬ source.path <+: place.path) :
    view root (files.relocate (root ++ source.path) (root ++ target.path)) place =
      view root files place := by
  apply FileSystem.lookup_relocate_of_not
  · rwa [List.prefix_append_right_inj]
  · rwa [List.prefix_append_right_inj]

/-- A relocation keeps everything at places if it takes places to places. -/
theorem Placed.relocate {source target : Place} (placed : Placed root files)
    (moves : ∀ rest (place : Place), source.path ++ rest = place.path →
      ∃ other : Place, target.path ++ rest = other.path) :
    Placed root (files.relocate (root ++ source.path) (root ++ target.path)) := by
  intro path notRoot present
  by_cases inTarget : target.path <+: path
  · obtain ⟨rest, rfl⟩ := inTarget
    rw [← List.append_assoc, FileSystem.lookup_relocate_target, List.append_assoc] at present
    have sourceNotRoot : source.path ++ rest ≠ [] :=
      List.append_ne_nil_of_left_ne_nil source.path_ne_nil rest
    obtain ⟨place, isPlace⟩ := placed _ sourceNotRoot present
    exact moves rest place isPlace
  · have fromTarget : ¬ root ++ target.path <+: root ++ path := by
      rwa [List.prefix_append_right_inj]
    by_cases inSource : source.path <+: path
    · have isGone := FileSystem.lookup_relocate_source fromTarget
        ((List.prefix_append_right_inj root).mpr inSource) files
      exact absurd isGone present
    · rw [FileSystem.lookup_relocate_of_not fromTarget
        (by rwa [List.prefix_append_right_inj])] at present
      exact placed path notRoot present

/-- What is at or below the place `source []` moves to `target []`. -/
structure Moves (root : List Text) (source target : List Text → Place)
    (files after : FileSystem Text) : Prop where
  arrived : ∀ path, view root after (target path) = view root files (source path)
  left : ∀ path, view root after (source path) = none
  keeps : Keeps root (fun place => ∃ path, place = source path ∨ place = target path) files after

theorem moves_relocate {source target : List Text → Place}
    (sourcePath : ∀ path, (source []).path ++ path = (source path).path)
    (targetPath : ∀ path, (target []).path ++ path = (target path).path)
    (apart : ∀ path other, source path ≠ target other) :
    Moves root source target files
      (files.relocate (root ++ (source []).path) (root ++ (target []).path)) := by
  have isSource : ∀ {place : Place}, (source []).path <+: place.path → ∃ path, place = source path := by
    rintro place ⟨rest, isBelow⟩
    exact ⟨rest, Place.path_injective (isBelow.symm.trans (sourcePath rest))⟩
  have isTarget : ∀ {place : Place}, (target []).path <+: place.path → ∃ path, place = target path := by
    rintro place ⟨rest, isBelow⟩
    exact ⟨rest, Place.path_injective (isBelow.symm.trans (targetPath rest))⟩
  constructor
  · intro path
    rw [view_relocate_target (targetPath path).symm, sourcePath path]
    rfl
  · intro path
    apply view_relocate_source
    · intro inTarget
      obtain ⟨other, same⟩ := isTarget inTarget
      exact apart path other same
    · exact ⟨path, sourcePath path⟩
  · constructor
    · intro place untouched
      apply view_relocate_of_not
      · intro inTarget
        obtain ⟨path, isPlace⟩ := isTarget inTarget
        exact untouched ⟨path, Or.inr isPlace⟩
      · intro inSource
        obtain ⟨path, isPlace⟩ := isSource inSource
        exact untouched ⟨path, Or.inl isPlace⟩
    · intro placed
      apply placed.relocate
      intro rest place _
      exact ⟨target rest, targetPath rest⟩

/-- `rename` between the candidates and the revisions. -/
theorem ensures_rename {source target : List Text → Place}
    (sourcePath : ∀ path, (source []).path ++ path = (source path).path)
    (targetPath : ∀ path, (target []).path ++ path = (target path).path)
    (apart : ∀ path other, source path ≠ target other) :
    Ensures (Io.rename (root ++ (source []).path) (root ++ (target []).path)) files
      (fun _ after => (∃ node, view root files (source []) = some node) ∧
        Moves root source target files after)
      fun _ after => after = files := by
  apply (Io.ensures_atomic _ files).weaken
  · intro _ after renamed
    have different : root ++ (source []).path ≠ root ++ (target []).path := by
      intro same
      exact apart [] [] (Place.path_injective (List.append_cancel_left same))
    obtain ⟨present, isAfter⟩ := FileSystem.rename_relocates renamed different
    refine ⟨present, ?_⟩
    rw [isAfter]
    exact moves_relocate sourcePath targetPath apart
  · exact fun _ _ same => same

/-- The pointer names `line`, through the temporary file. -/
structure Points (root : List Text) (line : Text) (files after : FileSystem Text) : Prop where
  pointer : view root after .current = some (.file (utf8 (line ++ ['\n'])))
  keeps : Keeps root (fun place => place = .current ∨ place = .temporary) files after

/-- The temporary file is there with this content, and nothing else has changed. -/
def Drafted (root : List Text) (content : Bytes) (files after : FileSystem Text) : Prop :=
  ∀ path, after.lookup path =
    if path = root ++ Place.temporary.path then some (.file content) else files.lookup path

theorem Drafted.keeps {content : Bytes} (drafted : Drafted root content files after) :
    Keeps root (· = .temporary) files after := by
  apply Keeps.of_lookup
  intro path outside
  rw [drafted, if_neg (outside .temporary rfl)]

theorem Drafted.append {content : Bytes} (drafted : Drafted root content files after)
    (bytes : Bytes) :
    Drafted root (content ++ bytes) files (after.append (root ++ Place.temporary.path) bytes) := by
  intro path
  have isFile : after.lookup (root ++ Place.temporary.path) = some (.file content) := by
    rw [drafted, if_pos rfl]
  by_cases same : path = root ++ Place.temporary.path
  · rw [same, if_pos rfl]
    exact FileSystem.lookup_append_self isFile bytes
  · rw [FileSystem.lookup_append_of_ne same, drafted, if_neg same, if_neg same]

/-- The rename of the temporary file to `current`. -/
theorem Drafted.relocate {line : Text}
    (drafted : Drafted root (utf8 (line ++ ['\n'])) files after) :
    Points root line files
      (after.relocate (root ++ Place.temporary.path) (root ++ Place.current.path)) where
  pointer := by
    rw [view_relocate_target (List.append_nil _).symm, List.append_nil, drafted, if_pos rfl]
  keeps := by
    constructor
    · intro place untouched
      rw [not_or] at untouched
      rw [view_relocate_of_not]
      · exact drafted.keeps.same place untouched.2
      · rintro ⟨rest, isBelow⟩
        exact untouched.1 (Place.eq_of_append_current isBelow).1
      · rintro ⟨rest, isBelow⟩
        exact untouched.2 (Place.eq_of_append_temporary isBelow).1
    · intro placed
      apply (drafted.keeps.placed placed).relocate
      intro rest place isBelow
      rw [(Place.eq_of_append_temporary isBelow).2]
      exact ⟨.current, List.append_nil _⟩

theorem ensures_writePointer (line : Text) :
    Ensures (writePointer root currentName line) files (fun _ => Points root line files)
      fun _ => Keeps root (· = .temporary) files := by
  unfold writePointer
  rw [joinPath_temporaryName, joinPath_currentName]
  have created : Ensures (Io.createNew (root ++ Place.temporary.path)) files
      (fun _ => Drafted root [] files) fun _ => Keeps root (· = .temporary) files := by
    apply (Io.ensures_atomic _ files).weaken
    · intro _ middle isCreated
      exact (FileSystem.lookup_addNode isCreated).2
    · rintro _ _ rfl
      exact Keeps.refl _ _
  apply created.bind
  intro _ middle drafted
  have written : Ensures (Io.writeAll (root ++ Place.temporary.path) (utf8 (line ++ ['\n']))) middle
      (fun _ => Drafted root (utf8 (line ++ ['\n'])) files)
      fun _ => Keeps root (· = .temporary) files := by
    apply (Io.ensures_operation _ _ middle).weaken
    · intro _ last isWritten
      cases isWritten
      exact drafted.append (utf8 (line ++ ['\n']))
    · rintro _ _ (rfl | ⟨written, rfl⟩)
      · exact drafted.keeps
      · exact (drafted.append _).keeps
  apply written.bind
  intro _ middle drafted
  have synced : Ensures Io.syncAll middle (fun _ => Drafted root (utf8 (line ++ ['\n'])) files)
      fun _ => Keeps root (· = .temporary) files := by
    apply (Io.ensures_atomic _ middle).weaken
    · intro _ last isSynced
      cases isSynced
      exact drafted
    · rintro _ _ rfl
      exact drafted.keeps
  apply synced.bind
  intro _ middle drafted
  apply (Io.ensures_atomic _ middle).weaken
  · intro _ last renamed
    have different : root ++ Place.temporary.path ≠ root ++ Place.current.path := by
      intro same
      cases Place.path_injective (List.append_cancel_left same)
    rw [(FileSystem.rename_relocates renamed different).2]
    exact drafted.relocate
  · rintro _ _ rfl
    exact drafted.keeps

/-- `create_dir_all` of a directory of the root. -/
theorem keeps_of_directoriesAdded {place : Place} {name : Text} (isTop : place.path = [name])
    (added : Io.DirectoriesAdded (root ++ place.path) files after) :
    Keeps root (· = place) files after := by
  have atPlace : ∀ path, path ≠ [] → root ++ path <+: root ++ place.path → path = place.path := by
    intro path notRoot above
    rw [List.prefix_append_right_inj, isTop, List.prefix_cons_iff] at above
    obtain isRoot | ⟨rest, isPath, isNil⟩ := above
    · exact absurd isRoot notRoot
    · rw [isPath, List.prefix_nil.mp isNil, isTop]
  constructor
  · intro other different
    obtain same | ⟨_, _, above⟩ := added (root ++ other.path)
    · exact same
    · exact absurd (Place.path_injective (atPlace other.path other.path_ne_nil above)) different
  · intro placed path notRoot present
    obtain same | ⟨_, _, above⟩ := added (root ++ path)
    · rw [same] at present
      exact placed path notRoot present
    · exact ⟨place, atPlace path notRoot above⟩

/-- A place below the candidate directory of a revision. -/
def Below (id : Text) (place : Place) : Prop :=
  ∃ path, path ≠ [] ∧ place = .candidate id path

/-- A path that is not below the candidate directory is not below anything in it. -/
theorem not_prefix_of_not_below {id : Text} {names path : List Text} (notEmpty : names ≠ [])
    (outside : ∀ place, Below id place → path ≠ root ++ place.path) :
    ¬ root ++ (Place.candidate id names).path <+: path := by
  rintro ⟨rest, isBelow⟩
  apply outside (.candidate id (names ++ rest))
  · exact ⟨names ++ rest, by simp [notEmpty], rfl⟩
  · rw [← isBelow]
    simp [Place.path]

theorem ne_of_not_below {id : Text} {names path : List Text} (notEmpty : names ≠ [])
    (outside : ∀ place, Below id place → path ≠ root ++ place.path) :
    path ≠ root ++ (Place.candidate id names).path :=
  outside (.candidate id names) ⟨names, notEmpty, rfl⟩

/-- Whether it fails or not, the program changes touched places only. -/
def Steady {ε α : Type} (root : List Text) (touched : Place → Prop) (program : Io Text ε α) :
    Prop :=
  ∀ files, Ensures program files (fun _ => Keeps root touched files)
    fun _ => Keeps root touched files

section Steady

variable {ε α β : Type} {touched : Place → Prop}

theorem steady_throw (error : ε) : Steady root touched (throw error : Io Text ε α) :=
  fun files => Io.ensures_throw (Keeps.refl touched files)

theorem Steady.bind {program : Io Text ε α} {next : α → Io Text ε β}
    (first : Steady root touched program) (second : ∀ value, Steady root touched (next value)) :
    Steady root touched (program >>= next) := by
  intro files
  apply (first files).bind
  intro value middle keeps
  exact (second value middle).weaken (fun _ _ more => keeps.trans more)
    fun _ _ more => keeps.trans more

theorem Steady.tryCatch {program : Io Text ε α} {handler : ε → Io Text ε α}
    (first : Steady root touched program) (second : ∀ error, Steady root touched (handler error)) :
    Steady root touched (tryCatch program handler) := by
  intro files
  apply (first files).tryCatch
  intro error middle keeps
  exact (second error middle).weaken (fun _ _ more => keeps.trans more)
    fun _ _ more => keeps.trans more

theorem Steady.io {program : Io Text IoError α} (steady : Steady root touched program) :
    Steady root touched (io program) :=
  fun files => Ensures.adapt (steady files)

theorem Steady.ignore {program : Io Text IoError Unit} (steady : Steady root touched program) :
    Steady root touched (Io.ignore program : Io Text ε Unit) :=
  fun files => Ensures.ignore (steady files)

/-- An operation that changes touched places or nothing. -/
theorem steady_operation {act : FileSystem Text → Except IoError (FileSystem Text)}
    (keeps : ∀ files after, act files = .ok after → Keeps root touched files after) :
    Steady root touched (Io.operation act fun _ files => files) := by
  intro files
  apply (Io.ensures_atomic act files).weaken
  · exact fun _ after acted => keeps files after acted
  · rintro _ _ rfl
    exact Keeps.refl _ _

theorem steady_syncAll : Steady root touched Io.syncAll := by
  apply steady_operation
  rintro files _ ⟨⟩
  exact Keeps.refl touched files

end Steady

section Stage

variable {id : Text} {names : List Text}

theorem steady_createNew (notEmpty : names ≠ []) :
    Steady root (Below id) (Io.createNew (root ++ (Place.candidate id names).path)) := by
  apply steady_operation
  intro files after created
  apply Keeps.of_lookup
  intro path outside
  rw [(FileSystem.lookup_addNode created).2, if_neg (ne_of_not_below notEmpty outside)]

theorem keeps_append (notEmpty : names ≠ []) (bytes : Bytes) :
    Keeps root (Below id) files
      (files.append (root ++ (Place.candidate id names).path) bytes) := by
  apply Keeps.of_lookup
  intro path outside
  exact FileSystem.lookup_append_of_ne (ne_of_not_below notEmpty outside) bytes files

theorem steady_writeAll (notEmpty : names ≠ []) (bytes : Bytes) :
    Steady root (Below id) (Io.writeAll (root ++ (Place.candidate id names).path) bytes) := by
  intro files
  apply (Io.ensures_operation _ _ files).weaken
  · rintro _ _ ⟨⟩
    exact keeps_append notEmpty bytes
  · rintro _ _ (rfl | ⟨written, rfl⟩)
    · exact Keeps.refl _ _
    · exact keeps_append notEmpty (bytes.take written)

theorem steady_removeFile (notEmpty : names ≠ []) :
    Steady root (Below id) (Io.removeFile (root ++ (Place.candidate id names).path)) := by
  apply steady_operation
  intro files after removed
  apply Keeps.of_lookup
  intro path outside
  rw [FileSystem.lookup_removeFile removed, if_neg (ne_of_not_below notEmpty outside)]

theorem steady_rename {target : List Text} (notEmpty : names ≠ [])
    (targetNotEmpty : target ≠ []) :
    Steady root (Below id) (Io.rename (root ++ (Place.candidate id names).path)
      (root ++ (Place.candidate id target).path)) := by
  apply steady_operation
  intro files after renamed
  by_cases same : names = target
  · subst same
    rw [FileSystem.rename_self renamed]
    exact Keeps.refl _ _
  · have different : root ++ (Place.candidate id names).path ≠
        root ++ (Place.candidate id target).path := by
      simpa [Place.path] using same
    rw [(FileSystem.rename_relocates renamed different).2]
    apply Keeps.of_lookup
    intro path outside
    exact FileSystem.lookup_relocate_of_not (not_prefix_of_not_below targetNotEmpty outside)
      (not_prefix_of_not_below notEmpty outside) files

/-- A failed write or rename removes the temporary file. -/
theorem steady_orRemove {program : Io Text TransactionError Unit} (notEmpty : names ≠ [])
    (steady : Steady root (Below id) program) :
    Steady root (Below id) (tryCatch program fun error => do
      Io.ignore (Io.removeFile (root ++ (Place.candidate id names).path))
      throw error) := by
  apply steady.tryCatch
  intro error
  apply (steady_removeFile notEmpty).ignore.bind
  intro _
  exact steady_throw error

end Stage

/-- Where the directories of a transaction are. -/
structure Named (root : List Text) (transaction : RevisionTransaction) : Prop where
  ownRoot : transaction.root = root
  ownCandidate : transaction.candidate = root ++ (Place.candidate transaction.revisionId []).path
  ownName : ∃ nanos process, transaction.revisionId = revisionName nanos process
  plainPrevious : ∀ previous, transaction.previous = some previous →
    isPlainFileName previous = true

theorem Named.withState {transaction : RevisionTransaction} (named : Named root transaction)
    (state : TransactionState) : Named root { transaction with state } :=
  ⟨named.ownRoot, named.ownCandidate, named.ownName, named.plainPrevious⟩

theorem joinPath_candidate {transaction : RevisionTransaction} (named : Named root transaction)
    {text : Text} {names : List Text} (isNormal : components text = names.map .normal) :
    joinPath transaction.candidate text =
      root ++ (Place.candidate transaction.revisionId names).path := by
  rw [joinPath_of_normal isNormal, named.ownCandidate]
  simp [Place.path]

/-- A method in the wrong state does nothing. -/
theorem expect_bind {α : Type} {transaction : RevisionTransaction} {expected : TransactionState}
    (rest : Io Text TransactionError α) :
    (do transaction.expect expected; rest) =
      if transaction.state = expected then rest
      else throw (.invalidState expected transaction.state) := by
  unfold RevisionTransaction.expect
  split
  · rfl
  · rfl

/-- `stage` writes below the candidate directory. -/
theorem steady_stage {transaction : RevisionTransaction} (named : Named root transaction)
    (artifactName : Text) (bytes : Bytes) :
    Steady root (Below transaction.revisionId) (transaction.stage artifactName bytes) := by
  unfold RevisionTransaction.stage
  rw [expect_bind]
  split
  · cases plain : isPlainFileName artifactName with
    | false => exact steady_throw TransactionError.invalidArtifactName
    | true =>
        obtain ⟨name, isName⟩ := isPlainFileName_iff.mp plain
        obtain ⟨names, notEmpty, isHidden⟩ :=
          @components_hidden artifactName name ".tmp".toList isName (by decide) (by decide)
        have isPath := @joinPath_candidate root transaction named artifactName [name] isName
        have isTemporary := joinPath_candidate named isHidden
        simp only [Bool.not_true, Bool.false_eq_true, if_false, temporaryName, isPath, isTemporary]
        apply (steady_createNew notEmpty).io.bind
        intro _
        apply Steady.bind
        · apply steady_orRemove notEmpty
          apply Steady.io
          apply (steady_writeAll notEmpty bytes).bind
          intro _
          exact steady_syncAll
        · intro _
          apply steady_orRemove notEmpty
          exact (steady_rename notEmpty (by simp)).io
  · exact steady_throw _

end Effects

end SmartFecTunnel.Controller
