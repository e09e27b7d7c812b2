import SmartFecTunnel.Controller.CommitSuccess

/-!
Contract: which states a commit can start from (controller.rs), on both platforms.

Owns:
- every pointer write leaves everything but the pointer, its temporary file and its
  backup, whichever of its operations fail;
- after any calls, a transaction that can be committed is prepared: `candidates` is a
  directory and nothing is where the commit moves the candidate directory.

Does not own: what a failed commit leaves at the pointer.
-/

namespace SmartFecTunnel.Controller

open SmartFecTunnel.Library
open SmartFecTunnel.Library.Io (Ensures Stays Succeeds)

/-! ### A pointer write -/

section Pointer

variable {root : List Text} {name other : Text}

theorem Elsewhere.stays_removeFile (own : name ∈ pointerNames) :
    Stays (Elsewhere root) (Io.removeFile (root ++ [name])) := by
  apply Io.stays_operation Elsewhere.refl
  intro files after removed
  rw [(FileSystem.of_removeFile removed).2]
  exact elsewhere_erase own

theorem Elsewhere.stays_rename (own : name ∈ pointerNames) (otherOwn : other ∈ pointerNames) :
    Stays (Elsewhere root) (Io.rename (root ++ [name]) (root ++ [other])) := by
  apply Io.stays_operation Elsewhere.refl
  intro files after renamed
  by_cases same : name = other
  · subst same
    rw [FileSystem.rename_self renamed]
    exact Elsewhere.refl files
  · rw [(FileSystem.rename_relocates renamed (by simpa using same)).2]
    exact elsewhere_relocate own otherOwn

theorem Elsewhere.stays_createNew (own : name ∈ pointerNames) :
    Stays (Elsewhere root) (Io.createNew (root ++ [name])) := by
  apply Io.stays_operation Elsewhere.refl
  intro files after created
  rw [(FileSystem.of_createNew created).2.2]
  exact elsewhere_insert own _

theorem Elsewhere.stays_syncAll : Stays (Elsewhere root) Io.syncAll := by
  apply Io.stays_operation Elsewhere.refl
  intro files after synced
  cases synced
  exact Elsewhere.refl files

theorem elsewhere_append (own : name ∈ pointerNames) (bytes : Bytes) (files : FileSystem Text) :
    Elsewhere root files (files.append (root ++ [name]) bytes) := by
  intro path outside
  apply FileSystem.lookup_append_of_ne
  rintro rfl
  exact outside name own List.prefix_rfl

theorem Elsewhere.stays_writeAll (own : name ∈ pointerNames) (bytes : Bytes) :
    Stays (Elsewhere root) (Io.writeAll (root ++ [name]) bytes) := by
  intro files
  apply (Io.ensures_operation _ _ files).weaken
  · intro _ after written
    cases written
    exact elsewhere_append own bytes files
  · intro _ after spoiled
    obtain same | ⟨written, same⟩ := spoiled
    · rw [same]
      exact Elsewhere.refl files
    · rw [same]
      exact elsewhere_append own (bytes.take written) files

theorem Elsewhere.stays_look {ε : Type} (path : List Text) :
    Stays (Elsewhere root) (pathExists path : Io Text ε Bool) := by
  intro files
  apply (ensures_pathExists path files fun _ after => Elsewhere root files after).weaken
  · intro _ after same
    rw [same]
    exact Elsewhere.refl files
  · exact fun _ _ kept => kept

/-- A pointer write leaves what does not belong to the pointer. -/
theorem Elsewhere.stays_writePointerOn (platform : Platform) (line : Text) :
    Stays (Elsewhere root) (writePointerOn platform root currentName line) := by
  have trans : ∀ first second third : FileSystem Text, Elsewhere root first second →
      Elsewhere root second third → Elsewhere root first third :=
    fun _ _ _ first second => first.trans second
  obtain ⟨current, temporary, backup⟩ := mem_pointerNames
  have replaced : Stays (Elsewhere root)
      (Io.rename (root ++ [temporaryName currentName]) (root ++ [currentName])) :=
    Elsewhere.stays_rename temporary current
  have swapped : Stays (Elsewhere root) (swapPointer (root ++ [temporaryName currentName])
      (root ++ [backupName currentName]) (root ++ [currentName])) := by
    unfold swapPointer clearBackup exchangePointer
    apply Stays.bind trans
    · apply Stays.bind trans (Elsewhere.stays_look _)
      intro there
      split
      · exact Elsewhere.stays_removeFile backup
      · exact Io.stays_pure Elsewhere.refl ()
    · intro _
      apply Stays.bind trans (Elsewhere.stays_rename current backup)
      intro _
      apply Stays.bind trans
      · apply Stays.tryCatch trans replaced
        intro error
        apply Stays.bind trans (Elsewhere.stays_rename backup current).ignore
        intro _
        exact Io.stays_throw Elsewhere.refl error
      · intro _
        exact Elsewhere.stays_removeFile backup
  have drafted : ∀ {rest : Io Text IoError Unit}, Stays (Elsewhere root) rest →
      Stays (Elsewhere root) (do
        Io.createNew (root ++ [temporaryName currentName])
        Io.writeAll (root ++ [temporaryName currentName]) (utf8 (line ++ ['\n']))
        Io.syncAll
        rest) := by
    intro rest ends
    apply Stays.bind trans (Elsewhere.stays_createNew temporary)
    intro _
    apply Stays.bind trans (Elsewhere.stays_writeAll temporary _)
    intro _
    apply Stays.bind trans Elsewhere.stays_syncAll
    exact fun _ => ends
  unfold writePointerOn writePointer
  rw [joinPath_temporaryName, joinPath_currentName, joinPath_backupName]
  cases platform with
  | unix => exact drafted replaced
  | windows =>
      apply drafted
      apply Stays.bind trans (Elsewhere.stays_look _)
      intro there
      split
      · exact swapped
      · exact replaced

end Pointer

/-! ### The invariant -/

/-- The directories of every transaction are in one place only. -/
structure Housed (root : List Text) (files : FileSystem Text)
    (transactions : List RevisionTransaction) : Prop where
  distinct : (revisionIds transactions).Nodup
  named : ∀ transaction ∈ transactions, Named root transaction
  candidates : transactions ≠ [] → view root files .candidates = some .directory
  /-- Every directory belongs to a transaction. -/
  known : ∀ id path, view root files (.candidate id path) ≠ none ∨
    view root files (.revision id path) ≠ none → id ∈ revisionIds transactions
  staged : ∀ transaction ∈ transactions, transaction.state = .candidate →
    ∀ path, view root files (.revision transaction.revisionId path) = none
  apart : ∀ transaction ∈ transactions,
    (∀ path, view root files (.candidate transaction.revisionId path) = none) ∨
      ∀ path, view root files (.revision transaction.revisionId path) = none

section Invariant

variable {platform : Platform} {root : List Text} {files after : FileSystem Text}
  {transactions : List RevisionTransaction} {transaction : RevisionTransaction} {index : Nat}

theorem housed_empty (empty : ∀ path, path ≠ [] → files.lookup (root ++ path) = none) :
    Housed root files [] := by
  have vacant : ∀ place : Place, view root files place = none :=
    fun place => empty place.path place.path_ne_nil
  constructor
  · exact List.nodup_nil
  · simp
  · simp
  · simp [vacant]
  · simp
  · simp

/-- The directories of at most one transaction change. -/
theorem Housed.change (housed : Housed root files transactions) (own : Text)
    (isOwn : own ∈ revisionIds transactions)
    (candidates : view root after .candidates = view root files .candidates)
    (others : ∀ id, id ≠ own → SameRevision root id files after)
    (ownApart : (∀ path, view root after (.candidate own path) = none) ∨
      ∀ path, view root after (.revision own path) = none)
    (ownStaged : ∀ other ∈ transactions, other.revisionId = own → other.state = .candidate →
      ∀ path, view root after (.revision own path) = none) :
    Housed root after transactions := by
  constructor
  · exact housed.distinct
  · exact housed.named
  · rw [candidates]
    exact housed.candidates
  · intro id path present
    by_cases same : id = own
    · exact same ▸ isOwn
    · rw [(others id same path).1, (others id same path).2] at present
      exact housed.known id path present
  · intro other member isCandidate path
    by_cases same : other.revisionId = own
    · rw [same]
      exact ownStaged other member same isCandidate path
    · rw [(others _ same path).2]
      exact housed.staged other member isCandidate path
  · intro other member
    by_cases same : other.revisionId = own
    · rw [same]
      exact ownApart
    · simp only [fun path => (others _ same path).1, fun path => (others _ same path).2]
      exact housed.apart other member

/-- Nothing changes but the pointer. -/
theorem Housed.elsewhere (housed : Housed root files transactions)
    (elsewhere : Elsewhere root files after) : Housed root after transactions := by
  constructor
  · exact housed.distinct
  · exact housed.named
  · rw [elsewhere.candidates]
    exact housed.candidates
  · intro id path
    rw [elsewhere.candidate, elsewhere.revision]
    exact housed.known id path
  · intro other member isCandidate path
    rw [elsewhere.revision]
    exact housed.staged other member isCandidate path
  · intro other member
    simp only [elsewhere.candidate, elsewhere.revision]
    exact housed.apart other member

/-- Two transactions have different ids. -/
theorem Housed.unique (housed : Housed root files transactions) {other : RevisionTransaction}
    (member : transaction ∈ transactions) (otherMember : other ∈ transactions)
    (sameId : other.revisionId = transaction.revisionId) : other = transaction :=
  List.inj_on_of_nodup_map housed.distinct otherMember member sameId

/-- A transaction goes on, but not back. -/
theorem Housed.advance (housed : Housed root files transactions)
    (found : transactions[index]? = some transaction) {state : TransactionState}
    (notBack : state = .candidate → transaction.state = .candidate) :
    Housed root files (transactions.set index { transaction with state }) := by
  have member := List.mem_of_getElem? found
  have ids := @revisionIds_set transactions index transaction { transaction with state } found rfl
  have notEmpty : transactions ≠ [] := List.ne_nil_of_mem member
  constructor
  · rw [ids]
    exact housed.distinct
  · exact named_set housed.distinct housed.named found state
  · exact fun _ => housed.candidates notEmpty
  · rw [ids]
    exact housed.known
  · intro other inSet isCandidate
    obtain rfl | ⟨earlier, _⟩ := mem_set_cases housed.distinct found inSet
    · exact housed.staged transaction member (notBack isCandidate)
    · exact housed.staged other earlier isCandidate
  · intro other inSet
    obtain rfl | ⟨earlier, _⟩ := mem_set_cases housed.distinct found inSet
    · exact housed.apart transaction member
    · exact housed.apart other earlier

/-- A new transaction with its empty candidate directory. -/
theorem Housed.begin (housed : Housed root files transactions) (named : Named root transaction)
    (fresh : transaction.revisionId ∉ revisionIds transactions)
    (candidates : view root files .candidates = some .directory)
    (keeps : Keeps root (· = .candidate transaction.revisionId []) files after) :
    Housed root after (transactions ++ [transaction]) := by
  have sameRevision : ∀ id path,
      view root after (.revision id path) = view root files (.revision id path) := by
    intro id path
    apply keeps.same
    simp
  have sameCandidate : ∀ id path, id ≠ transaction.revisionId →
      view root after (.candidate id path) = view root files (.candidate id path) := by
    intro id path different
    apply keeps.same
    simp [different]
  have ownRevision : ∀ path, view root after (.revision transaction.revisionId path) = none := by
    intro path
    rw [sameRevision]
    by_contra present
    exact fresh (housed.known transaction.revisionId path (Or.inr present))
  have ids : revisionIds (transactions ++ [transaction]) =
      revisionIds transactions ++ [transaction.revisionId] := by
    simp [revisionIds]
  have differs : ∀ other ∈ transactions, other.revisionId ≠ transaction.revisionId := by
    intro other member same
    exact fresh (same ▸ List.mem_map_of_mem member)
  constructor
  · rw [ids]
    exact List.Nodup.append housed.distinct (List.nodup_singleton _) (by simpa using fresh)
  · intro other member
    obtain earlier | isNew := List.mem_append.mp member
    · exact housed.named other earlier
    · exact List.mem_singleton.mp isNew ▸ named
  · intro _
    rw [keeps.same .candidates (by simp)]
    exact candidates
  · intro id path present
    rw [ids, List.mem_append, List.mem_singleton]
    by_cases own : id = transaction.revisionId
    · exact Or.inr own
    · rw [sameRevision, sameCandidate id path own] at present
      exact Or.inl (housed.known id path present)
  · intro other member isCandidate path
    obtain earlier | isNew := List.mem_append.mp member
    · rw [sameRevision]
      exact housed.staged other earlier isCandidate path
    · exact List.mem_singleton.mp isNew ▸ ownRevision path
  · intro other member
    obtain earlier | isNew := List.mem_append.mp member
    · simp only [sameRevision, fun path => sameCandidate _ path (differs other earlier)]
      exact housed.apart other earlier
    · exact Or.inr (List.mem_singleton.mp isNew ▸ ownRevision)

/-- `createDirAll` adds directories above its path only. -/
theorem Housed.directories (housed : Housed root files transactions) {place : Place}
    (isDirectory : place = .candidates ∨ place = .revisions)
    (added : Io.DirectoriesAdded (root ++ place.path) files after) :
    Housed root after transactions := by
  have keeps := keeps_of_topDirectory isDirectory added
  have sameCandidate : ∀ id path,
      view root after (.candidate id path) = view root files (.candidate id path) := by
    intro id path
    apply keeps.same
    rintro rfl
    simp at isDirectory
  have sameRevision : ∀ id path,
      view root after (.revision id path) = view root files (.revision id path) := by
    intro id path
    apply keeps.same
    rintro rfl
    simp at isDirectory
  constructor
  · exact housed.distinct
  · exact housed.named
  · intro notEmpty
    obtain same | ⟨missing, _⟩ := added (root ++ Place.candidates.path)
    · exact same.trans (housed.candidates notEmpty)
    · rw [show files.lookup (root ++ Place.candidates.path) = some .directory from
        housed.candidates notEmpty] at missing
      cases missing
  · intro id path
    rw [sameCandidate, sameRevision]
    exact housed.known id path
  · intro other member isCandidate path
    rw [sameRevision]
    exact housed.staged other member isCandidate path
  · intro other member
    simp only [sameCandidate, sameRevision]
    exact housed.apart other member

/-- A new directory is in a directory. -/
theorem view_candidates_of_created {id : Text}
    (created : files.createDir (root ++ (Place.candidate id []).path) = .ok after) :
    view root files .candidates = some .directory := by
  have parent : (root ++ (Place.candidate id []).path).dropLast =
      root ++ Place.candidates.path := by
    rw [Place.candidate_path]
    exact List.dropLast_concat
  have absent := (FileSystem.lookup_addNode created).1
  simp only [FileSystem.createDir, FileSystem.addNode, absent, parent] at created
  cases opened : files.openDirectory (root ++ Place.candidates.path) with
  | ok => exact FileSystem.directory_of_openDirectory opened
  | error error =>
      rw [opened] at created
      cases created

/-- `begin` adds a transaction with its directory. -/
theorem Housed.ensures_begin (housed : Housed root files transactions) (previous : Option Text)
    (clock : Option Nat) (process : Nat) :
    Ensures (RevisionTransaction.begin root previous clock process) files
      (fun transaction after => (revisionIds (transactions ++ [transaction])).Nodup →
        Housed root after (transactions ++ [transaction]))
      fun _ after => Housed root after transactions := by
  apply ensures_begin_of housed
  · exact fun isDirectory added beforeHoused => beforeHoused.directories isDirectory added
  · intro transaction before after named _ _ beforeHoused created distinct
    exact beforeHoused.begin named (fresh_of_distinct distinct)
      (view_candidates_of_created created) (keeps_of_createDir created)

/-- A directory that has moved, whichever way. -/
theorem Housed.moved (housed : Housed root files transactions)
    (member : transaction ∈ transactions) (validated : transaction.state = .validated)
    {source target : List Text → Place}
    (ways : source = .candidate transaction.revisionId ∧ target = .revision transaction.revisionId ∨
      source = .revision transaction.revisionId ∧ target = .candidate transaction.revisionId)
    (moves : Moves root source target files after) : Housed root after transactions := by
  have isOwn : transaction.revisionId ∈ revisionIds transactions := List.mem_map_of_mem member
  have notOwn : ∀ place : Place,
      (∀ path, place ≠ .candidate transaction.revisionId path) →
      (∀ path, place ≠ .revision transaction.revisionId path) →
      view root after place = view root files place := by
    intro place notCandidate notRevision
    apply moves.keeps.same
    rintro ⟨path, isPlace⟩
    obtain ⟨rfl, rfl⟩ | ⟨rfl, rfl⟩ := ways
    · exact isPlace.elim (notCandidate path) (notRevision path)
    · exact isPlace.elim (notRevision path) (notCandidate path)
  apply housed.change transaction.revisionId isOwn
  · exact notOwn _ (by simp) (by simp)
  · intro id different path
    exact ⟨notOwn _ (by simp [different]) (by simp), notOwn _ (by simp) (by simp [different])⟩
  · obtain ⟨rfl, rfl⟩ | ⟨rfl, rfl⟩ := ways
    · exact Or.inl moves.left
    · exact Or.inr moves.left
  · intro other otherMember sameId isCandidate
    rw [housed.unique member otherMember sameId, validated] at isCandidate
    cases isCandidate

/-- A rename of the directory of a validated transaction, whichever way. -/
theorem Housed.ensures_move (housed : Housed root files transactions)
    (member : transaction ∈ transactions) (validated : transaction.state = .validated)
    {source target : List Text → Place}
    (ways : source = .candidate transaction.revisionId ∧ target = .revision transaction.revisionId ∨
      source = .revision transaction.revisionId ∧ target = .candidate transaction.revisionId) :
    Ensures (Io.rename (root ++ (source []).path) (root ++ (target []).path)) files
      (fun _ after => Housed root after transactions)
      fun _ after => Housed root after transactions := by
  have sourcePath : ∀ path, (source []).path ++ path = (source path).path := by
    obtain ⟨rfl, _⟩ | ⟨rfl, _⟩ := ways
    · exact fun _ => rfl
    · exact fun _ => rfl
  have targetPath : ∀ path, (target []).path ++ path = (target path).path := by
    obtain ⟨_, rfl⟩ | ⟨_, rfl⟩ := ways
    · exact fun _ => rfl
    · exact fun _ => rfl
  have apart : ∀ path other, source path ≠ target other := by
    obtain ⟨rfl, rfl⟩ | ⟨rfl, rfl⟩ := ways
    · simp
    · simp
  apply (ensures_rename sourcePath targetPath apart).weaken
  · exact fun _ _ moved => housed.moved member validated ways moved.2
  · exact fun _ _ same => same ▸ housed

theorem Housed.ensures_write (platform : Platform) (housed : Housed root files transactions)
    (line : Text) :
    Ensures (io (writePointerOn platform root currentName line)) files
      (fun _ after => Housed root after transactions)
      fun _ after => Housed root after transactions :=
  Ensures.adapt ((Elsewhere.stays_writePointerOn platform line files).weaken
    (fun _ _ elsewhere => housed.elsewhere elsewhere)
    fun _ _ elsewhere => housed.elsewhere elsewhere)

/-- `commit` on either platform. -/
theorem Housed.ensures_commitOn (platform : Platform) (housed : Housed root files transactions)
    (found : transactions[index]? = some transaction) :
    Ensures (transaction.commitOn platform) files
      (fun next after => Housed root after (transactions.set index next))
      fun _ after => Housed root after transactions := by
  have member := List.mem_of_getElem? found
  have named := housed.named transaction member
  unfold RevisionTransaction.commitOn
  rw [expect_bind]
  split
  next validated =>
    simp only [named.ownRoot, named.joinPath_own, named.ownCandidate]
    apply (Ensures.adapt (housed.ensures_move member validated (Or.inl ⟨rfl, rfl⟩))).bind
    intro _ middle middleHoused
    apply Ensures.bind
    · apply (middleHoused.ensures_write platform transaction.revisionId).tryCatch
      intro error after afterHoused
      have back := afterHoused.ensures_move member validated (Or.inr ⟨rfl, rfl⟩)
      apply (Ensures.ignore (back.weaken (fun _ _ kept => kept) fun _ _ kept => kept)).bind
      intro _ last lastHoused
      exact Io.ensures_throw lastHoused
    · intro _ last lastHoused
      apply Io.ensures_pure
      have advanced := @Housed.advance root last transactions transaction index lastHoused found
        .committed (by simp)
      rw [named.ownRoot, named.ownCandidate] at advanced
      exact advanced
  next => exact Io.ensures_throw housed

/-- Something below the candidate directory changes. -/
theorem Housed.staging (housed : Housed root files transactions)
    (member : transaction ∈ transactions) (isCandidate : transaction.state = .candidate)
    (keeps : Keeps root (Below transaction.revisionId) files after) :
    Housed root after transactions := by
  have vacant : ∀ path, view root after (.revision transaction.revisionId path) = none := by
    intro path
    rw [keeps.revision_of_below]
    exact housed.staged transaction member isCandidate path
  apply housed.change transaction.revisionId (List.mem_map_of_mem member)
  · apply keeps.same
    rintro ⟨_, _, ⟨⟩⟩
  · exact fun id different path => keeps.sameRevision_of_below different path
  · exact Or.inr vacant
  · exact fun _ _ _ _ => vacant

/-- Every method. -/
theorem Housed.ensures_method (platform : Platform) (housed : Housed root files transactions)
    (found : transactions[index]? = some transaction) (method : Method) :
    Ensures (method.programOn platform transaction) files
      (fun next after => Housed root after (transactions.set index next))
      fun _ after => Housed root after transactions := by
  have member := List.mem_of_getElem? found
  have named := housed.named transaction member
  cases method with
  | commit => exact housed.ensures_commitOn platform found
  | validate validator =>
      change Ensures (transaction.validate validator) files _ _
      unfold RevisionTransaction.validate
      rw [expect_bind]
      split
      next isCandidate =>
        apply (Io.ensures_readTree files _).bind
        intro tree after both
        rw [both.2]
        split
        · exact Io.ensures_throw housed
        · exact Io.ensures_pure (housed.advance found (by simp))
      next => exact Io.ensures_throw housed
  | stage artifactName bytes =>
      by_cases isCandidate : transaction.state = .candidate
      · have kept : ∀ after, Keeps root (Below transaction.revisionId) files after →
            Housed root after transactions :=
          fun after keeps => housed.staging member isCandidate keeps
        apply ((steady_stage named artifactName bytes files).weaken
          (fun _ after keeps => kept after keeps) fun _ after keeps => kept after keeps).bind
        intro _ after afterHoused
        exact Io.ensures_pure (afterHoused.advance found id)
      · change Ensures (do transaction.stage artifactName bytes; pure transaction) files _ _
        unfold RevisionTransaction.stage
        rw [bind_assoc, expect_bind, if_neg isCandidate]
        exact Io.ensures_throw housed
  | rollback =>
      change Ensures (transaction.rollbackOn platform) files _ _
      unfold RevisionTransaction.rollbackOn
      rw [expect_bind]
      split
      next =>
        cases isPrevious : transaction.previous with
        | none => exact Io.ensures_throw housed
        | some previous =>
            apply (Io.ensures_isDir _ files _).bind
            intro there after both
            rw [both.1]
            split
            · exact Io.ensures_throw housed
            · rw [named.ownRoot]
              apply (housed.ensures_write platform previous).bind
              intro _ last lastHoused
              have advanced := @Housed.advance root last transactions transaction index lastHoused
                found .rolledBack (by simp)
              rw [named.ownRoot, isPrevious] at advanced
              exact Io.ensures_pure advanced
      next => exact Io.ensures_throw housed

end Invariant

/-! ### Runs -/

section Runs

variable {platform : Platform} {root : List Text} {files : FileSystem Text}
  {system next : System} {event : Event} {events : List Event} {accepted emitted : List Accepted}

/-- Transactions are added, and keep their ids. -/
theorem revisionIds_stepOn (stepped : stepOn platform root system event = some (next, emitted)) :
    revisionIds system.transactions <+: revisionIds next.transactions := by
  apply @stepOn_ensures platform root system next event emitted
    (fun next _ => revisionIds system.transactions <+: revisionIds next.transactions) stepped
  · intro previous clock process _
    apply (Io.ensures_trivial _ system.files).weaken
    · intro transaction after _
      simp [revisionIds]
    · exact fun _ _ _ => List.prefix_rfl
  · intro index method transaction _ found
    apply (ensures_state platform transaction method system.files).weaken
    · intro advanced after isAdvanced
      obtain ⟨state, rfl⟩ := isAdvanced
      have ids := @revisionIds_set system.transactions index transaction
        { transaction with state } found rfl
      dsimp only
      rw [ids]
    · exact fun _ _ _ => List.prefix_rfl

theorem Housed.step (housed : Housed root system.files system.transactions)
    (stepped : stepOn platform root system event = some (next, emitted))
    (distinct : (revisionIds next.transactions).Nodup) :
    Housed root next.files next.transactions := by
  revert distinct
  apply @stepOn_ensures platform root system next event emitted
    (fun next _ => (revisionIds next.transactions).Nodup →
      Housed root next.files next.transactions) stepped
  · intro previous clock process _
    apply (housed.ensures_begin previous clock process).weaken
    · exact fun _ _ begun => begun
    · exact fun _ _ kept _ => kept
  · intro index method transaction _ found
    apply (housed.ensures_method platform found method).weaken
    · exact fun _ _ kept _ => kept
    · exact fun _ _ kept _ => kept

/-- The invariant after any calls.  The ids only have to differ at the end. -/
theorem housed_run (empty : ∀ path, path ≠ [] → files.lookup (root ++ path) = none)
    (ran : run (stepOn platform root) ⟨files, []⟩ events = some (system, accepted))
    (distinct : (revisionIds system.transactions).Nodup) :
    Housed root system.files system.transactions := by
  apply run_invariant ran
    (fun _ _ system => (revisionIds system.transactions).Nodup →
      Housed root system.files system.transactions)
  · exact fun _ => housed_empty empty
  · intro past event accepted system next emitted _ _ stepped inductionHypothesis nextDistinct
    have systemDistinct := nextDistinct.sublist (revisionIds_stepOn stepped).sublist
    exact (inductionHypothesis systemDistinct).step stepped nextDistinct
  · exact distinct

/-- After any calls on any transactions with different ids, with any file operations failing, a
transaction that can be committed is prepared. -/
theorem prepared_of_run (empty : ∀ path, path ≠ [] → files.lookup (root ++ path) = none)
    (ran : run (stepOn platform root) ⟨files, []⟩ events = some (system, accepted))
    (distinct : (revisionIds system.transactions).Nodup) {transaction : RevisionTransaction}
    (member : transaction ∈ system.transactions)
    (succeeds : Succeeds (transaction.commitOn platform) system.files) :
    Prepared root system.files transaction := by
  have housed := housed_run empty ran distinct
  have named := housed.named transaction member
  obtain ⟨_, ⟨moved, isMoved⟩, _⟩ := (succeeds_commitOn_iff named).mp succeeds
  obtain ⟨node, isCandidate⟩ := isMoved.relocated.1
  refine ⟨named, housed.candidates (List.ne_nil_of_mem member), ?_⟩
  obtain noCandidate | noRevision := housed.apart transaction member
  · rw [noCandidate []] at isCandidate
    cases isCandidate
  · exact noRevision

end Runs

end SmartFecTunnel.Controller
