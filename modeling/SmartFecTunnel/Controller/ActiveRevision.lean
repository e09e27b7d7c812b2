import SmartFecTunnel.Controller.Platform
import SmartFecTunnel.Controller.RevisionInvariant

/-!
Contract: what `current` names after any calls on any transactions.

Every method keeps the invariant of the revisions, whichever of its file
operations fail.  The hard case is a `commit` whose pointer could not be written:
the directory moves back, or it stays under `revisions` and a second `commit`
does not find a candidate.

Owns: the active revision exists and holds what its validator accepted.

Does not own: what another process does below the root.
-/

namespace SmartFecTunnel.Controller

open SmartFecTunnel.Library
open SmartFecTunnel.Library.Io (Ensures)

variable {root : List Text} {files after : FileSystem Text}
  {transactions : List RevisionTransaction} {accepted : List Accepted}

/-! ### The methods -/

section Methods

variable {index : Nat} {transaction : RevisionTransaction}

theorem joinPath_revision {id text : Text} (plain : components text = [.normal id]) :
    joinPath (joinPath root revisionsName) text = root ++ (Place.revision id []).path := by
  rw [joinPath_revisionsName, joinPath_plain plain, Place.revision_path]

theorem Named.components_own (named : Named root transaction) :
    components transaction.revisionId = [.normal transaction.revisionId] := by
  obtain ⟨nanos, process, isName⟩ := named.ownName
  rw [isName]
  exact components_revisionName nanos process

/-- A directory that has moved and moved back is where it was. -/
theorem keeps_of_moves_back {id : Text} {middle drafted : FileSystem Text}
    (vacant : ∀ path, view root files (.revision id path) = none)
    (moves : Moves root (.candidate id) (.revision id) files middle)
    (keeps : Keeps root (· = .temporary) middle drafted)
    (back : Moves root (.revision id) (.candidate id) drafted after) :
    Keeps root (· = .temporary) files after where
  same := by
    intro place untouched
    by_cases inCandidate : ∃ path, place = .candidate id path
    · obtain ⟨path, rfl⟩ := inCandidate
      rw [back.arrived, keeps.same _ (by simp), moves.arrived]
    · by_cases inRevision : ∃ path, place = .revision id path
      · obtain ⟨path, rfl⟩ := inRevision
        rw [back.left, vacant]
      · rw [back.keeps.same, keeps.same place untouched, moves.keeps.same]
        · rintro ⟨path, isCandidate | isRevision⟩
          · exact inCandidate ⟨path, isCandidate⟩
          · exact inRevision ⟨path, isRevision⟩
        · rintro ⟨path, isRevision | isCandidate⟩
          · exact inRevision ⟨path, isRevision⟩
          · exact inCandidate ⟨path, isCandidate⟩
  placed := fun placed => back.keeps.placed (keeps.placed (moves.keeps.placed placed))

theorem Sound.of_temporary (sound : Sound root files transactions accepted)
    (keeps : Keeps root (· = .temporary) files after) : Sound root after transactions accepted :=
  sound.of_keeps keeps fun _ isTemporary => Or.inr (Or.inr isTemporary)

/-- The compensating rename of `commit`, whether it succeeds or not. -/
theorem ensures_compensation (sound : Sound root files transactions accepted) {entry : Accepted}
    (member : entry ∈ accepted) (inCandidates : InCandidates root files entry)
    {middle drafted : FileSystem Text}
    (moves : Moves root (.candidate entry.revision) (.revision entry.revision) files middle)
    (keeps : Keeps root (· = .temporary) middle drafted) :
    Ensures (Io.rename (root ++ (Place.revision entry.revision []).path)
        (root ++ (Place.candidate entry.revision []).path)) drafted
      (fun _ after => Sound root after transactions accepted)
      fun _ after => Sound root after transactions accepted := by
  apply (@ensures_rename root drafted (.revision entry.revision) (.candidate entry.revision)
    (fun _ => rfl) (fun _ => rfl) (fun _ _ same => by cases same)).weaken
  · rintro _ after ⟨_, back⟩
    apply sound.of_temporary
    exact keeps_of_moves_back (fun path => (inCandidates path).2) moves keeps back
  · rintro _ _ rfl
    exact (sound.move member inCandidates moves).1.of_temporary keeps

/-- `commit` moves the candidate directory and points `current` at it.  If that fails, the
directory moves back, or it stays as a revision that `current` does not name. -/
theorem ensures_commit (sound : Sound root files transactions accepted)
    (found : transactions[index]? = some transaction) :
    Ensures transaction.commit files
      (fun next after => Sound root after (transactions.set index next) accepted)
      fun _ after => Sound root after transactions accepted := by
  have member := List.mem_of_getElem? found
  have named := sound.named transaction member
  unfold RevisionTransaction.commit
  rw [expect_bind]
  split
  next isValidated =>
    have validated : transaction.state ≠ .candidate := by
      rw [isValidated]
      decide
    obtain ⟨entry, inAccepted, isEntry⟩ := sound.settled transaction member validated
    simp only [named.ownCandidate, named.ownRoot, joinPath_revision named.components_own]
    have placement := (sound.accounted entry inAccepted).2.2
    have isNamed := named.components_own
    rw [← isEntry] at isNamed ⊢
    have renamed : Ensures (Io.rename (root ++ (Place.candidate entry.revision []).path)
          (root ++ (Place.revision entry.revision []).path)) files
        (fun _ middle => InCandidates root files entry ∧
          Moves root (.candidate entry.revision) (.revision entry.revision) files middle)
        fun _ after => Sound root after transactions accepted := by
      apply (@ensures_rename root files (.candidate entry.revision) (.revision entry.revision)
        (fun _ => rfl) (fun _ => rfl) (fun _ _ same => by cases same)).weaken
      · rintro _ middle ⟨⟨node, present⟩, moves⟩
        refine ⟨?_, moves⟩
        obtain inCandidates | inRevisions := placement
        · exact inCandidates
        · rw [(inRevisions []).2] at present
          cases present
      · rintro _ _ rfl
        exact sound
    apply (Ensures.adapt renamed).bind
    rintro _ middle ⟨inCandidates, moves⟩
    obtain ⟨movedSound, inRevisions⟩ := sound.move inAccepted inCandidates moves
    have pointed : Ensures (io (writePointer root currentName entry.revision)) middle
        (fun _ after => Sound root after transactions accepted)
        fun _ => Keeps root (· = .temporary) middle := by
      apply Ensures.adapt
      apply (ensures_writePointer entry.revision).weaken
      · intro _ after points
        exact movedSound.point inAccepted inRevisions isNamed points
      · exact fun _ _ keeps => keeps
    apply Ensures.bind
    · apply pointed.tryCatch
      intro error drafted keeps
      apply Ensures.bind
      · exact Ensures.ignore (ensures_compensation sound inAccepted inCandidates moves keeps)
      · intro _ after afterSound
        exact Io.ensures_throw afterSound
    · intro _ after afterSound
      have notBack : TransactionState.committed ≠ .candidate := by decide
      have advanced := afterSound.advance found validated notBack
      rw [named.ownCandidate, named.ownRoot, ← isEntry] at advanced
      exact Io.ensures_pure advanced
  next => exact Io.ensures_throw sound

/-- `rollback` points `current` at a directory under `revisions`. -/
theorem ensures_rollback (sound : Sound root files transactions accepted)
    (found : transactions[index]? = some transaction) :
    Ensures transaction.rollback files
      (fun next after => Sound root after (transactions.set index next) accepted)
      fun _ after => Sound root after transactions accepted := by
  have member := List.mem_of_getElem? found
  have named := sound.named transaction member
  unfold RevisionTransaction.rollback
  rw [expect_bind]
  split
  next isCommitted =>
    have validated : transaction.state ≠ .candidate := by
      rw [isCommitted]
      decide
    cases isPrevious : transaction.previous with
    | none => exact Io.ensures_throw sound
    | some previous =>
        obtain ⟨id, plain⟩ := isPlainFileName_iff.mp (named.plainPrevious previous isPrevious)
        simp only [named.ownRoot, joinPath_revision plain]
        apply (Io.ensures_isDir _ files _).bind
        rintro there after ⟨same, isThere⟩
        rw [same]
        cases there with
        | false => exact Io.ensures_throw sound
        | true =>
            obtain ⟨entry, inAccepted, isEntry, inRevisions⟩ :=
              sound.exists_entry (isThere rfl)
            rw [← isEntry] at plain
            have pointed : Ensures (io (writePointer root currentName previous)) files
                (fun _ after => Sound root after transactions accepted)
                fun _ after => Sound root after transactions accepted := by
              apply Ensures.adapt
              apply (ensures_writePointer previous).weaken
              · intro _ after points
                exact sound.point inAccepted inRevisions plain points
              · exact fun _ _ keeps => sound.of_temporary keeps
            apply pointed.bind
            intro _ after afterSound
            have notBack : TransactionState.rolledBack ≠ .candidate := by decide
            have advanced := afterSound.advance found validated notBack
            rw [named.ownRoot, isPrevious] at advanced
            exact Io.ensures_pure advanced
  next => exact Io.ensures_throw sound

theorem ensures_validate (sound : Sound root files transactions accepted)
    (found : transactions[index]? = some transaction) (validator : CandidateValidator) :
    Ensures (transaction.validate validator) files
      (fun next after => after = files ∧ transaction.state = .candidate ∧
        Sound root after (transactions.set index next) (accepted ++ [transaction.snapshot files]))
      fun _ after => after = files := by
  unfold RevisionTransaction.validate
  rw [expect_bind]
  split
  next isCandidate =>
    apply (Io.ensures_readTree files _).bind
    rintro tree after ⟨isTree, same⟩
    rw [isTree, same]
    cases validator files transaction.candidate with
    | error reason => exact Io.ensures_throw rfl
    | ok => exact Io.ensures_pure ⟨rfl, isCandidate, sound.validate found isCandidate⟩
  next => exact Io.ensures_throw rfl

/-- A property that the two new directories do not change holds of `begin` up to its candidate
directory, and afterwards if the call fails. -/
theorem ensures_begin_of {Kept : FileSystem Text → Prop}
    {Made : RevisionTransaction → FileSystem Text → Prop} {previous : Option Text}
    {clock : Option Nat} {process : Nat} (start : Kept files)
    (directory : ∀ {place : Place} {before after : FileSystem Text},
      place = .candidates ∨ place = .revisions →
      Io.DirectoriesAdded (root ++ place.path) before after → Kept before → Kept after)
    (candidate : ∀ {transaction : RevisionTransaction} {before after : FileSystem Text},
      Named root transaction → transaction.state = .candidate → transaction.previous = previous →
      Kept before →
      before.createDir (root ++ (Place.candidate transaction.revisionId []).path) = .ok after →
      Made transaction after) :
    Ensures (RevisionTransaction.begin root previous clock process) files Made
      fun _ after => Kept after := by
  have made : ∀ {place : Place} {before : FileSystem Text},
      place = .candidates ∨ place = .revisions → Kept before →
      Ensures (io (Io.createDirAll (root ++ place.path))) before (fun _ after => Kept after)
        fun _ after => Kept after := by
    intro place before isDirectory kept
    exact Ensures.adapt ((Io.ensures_createDirAll (root ++ place.path) before).weaken
      (fun _ _ added => directory isDirectory added kept)
      fun _ _ added => directory isDirectory added kept)
  unfold RevisionTransaction.begin
  split
  next => exact Io.ensures_throw start
  next arePlain =>
    have plainPrevious : ∀ value, previous = some value → isPlainFileName value = true := by
      rintro value rfl
      simpa using arePlain
    rw [joinPath_candidatesName, joinPath_revisionsName]
    apply (made (Or.inl rfl) start).bind
    intro _ first firstKept
    apply (made (Or.inr rfl) firstKept).bind
    intro _ second secondKept
    cases clock with
    | none => exact Io.ensures_throw secondKept
    | some nanos =>
        have isCandidate : joinPath (root ++ Place.candidates.path) (revisionName nanos process) =
            root ++ (Place.candidate (revisionName nanos process) []).path := by
          rw [joinPath_plain (components_revisionName nanos process), Place.candidate_path]
        simp only [isCandidate]
        have created : Ensures (io (Io.createDir
              (root ++ (Place.candidate (revisionName nanos process) []).path))) second
            (fun _ after => second.createDir
              (root ++ (Place.candidate (revisionName nanos process) []).path) = .ok after)
            fun _ after => Kept after := by
          apply Ensures.adapt
          apply (Io.ensures_atomic _ second).weaken
          · exact fun _ _ isCreated => isCreated
          · rintro _ _ rfl
            exact secondKept
        apply created.bind
        intro _ after isCreated
        apply Io.ensures_pure
        exact candidate ⟨rfl, rfl, ⟨nanos, process, rfl⟩, plainPrevious⟩ rfl rfl secondKept
          isCreated

theorem keeps_of_createDir {id : Text}
    (created : files.createDir (root ++ (Place.candidate id []).path) = .ok after) :
    Keeps root (· = .candidate id []) files after := by
  apply Keeps.of_lookup
  intro path outside
  rw [(FileSystem.lookup_addNode created).2, if_neg (outside _ rfl)]

/-- A new id is not one of the earlier ones. -/
theorem fresh_of_distinct (distinct : (revisionIds (transactions ++ [transaction])).Nodup) :
    transaction.revisionId ∉ revisionIds transactions := by
  intro old
  rw [revisionIds, List.map_append, List.nodup_append] at distinct
  exact distinct.2.2 _ old _ (by simp) rfl

theorem keeps_of_topDirectory {place : Place} (isDirectory : place = .candidates ∨ place = .revisions)
    (added : Io.DirectoriesAdded (root ++ place.path) files after) :
    Keeps root (· = place) files after := by
  obtain rfl | rfl := isDirectory
  · exact keeps_of_directoriesAdded rfl added
  · exact keeps_of_directoriesAdded rfl added

/-- `begin` makes the directories and adds its transaction. -/
theorem ensures_begin (sound : Sound root files transactions accepted) (previous : Option Text)
    (clock : Option Nat) (process : Nat) :
    Ensures (RevisionTransaction.begin root previous clock process) files
      (fun transaction after => (revisionIds (transactions ++ [transaction])).Nodup →
        Sound root after (transactions ++ [transaction]) accepted)
      fun _ after => Sound root after transactions accepted := by
  apply ensures_begin_of sound
  · intro place before after isDirectory added beforeSound
    apply beforeSound.of_keeps (keeps_of_topDirectory isDirectory added)
    rintro _ rfl
    obtain isCandidates | isRevisions := isDirectory
    · exact Or.inl isCandidates
    · exact Or.inr (Or.inl isRevisions)
  · intro transaction before after named isCandidate _ beforeSound created distinct
    apply beforeSound.begin named isCandidate (fresh_of_distinct distinct)
      (keeps_of_createDir created)
    rw [view, (FileSystem.lookup_addNode created).2, if_pos rfl]

/-- No method changes the id. -/
theorem ensures_revisionId (transaction : RevisionTransaction) (method : Method)
    (files : FileSystem Text) :
    Ensures (method.program transaction) files
      (fun next _ => next.revisionId = transaction.revisionId) fun _ _ => True := by
  rw [← Method.programOn_unix]
  apply (ensures_state .unix transaction method files).weaken
  · rintro _ _ ⟨state, rfl⟩
    rfl
  · exact fun _ _ _ => trivial

/-! ### Calls that do not touch the pointer -/

theorem steady_begin (previous : Option Text) (clock : Option Nat) (process : Nat) :
    Steady root (· ≠ .current) (RevisionTransaction.begin root previous clock process) := by
  intro files
  apply ensures_begin_of (Keeps.refl _ files)
  · intro place before after isDirectory added keeps
    apply keeps.trans
    apply (keeps_of_topDirectory isDirectory added).mono
    rintro _ rfl rfl
    simp at isDirectory
  · intro transaction before after _ _ _ keeps created
    apply keeps.trans
    apply (keeps_of_createDir created).mono
    rintro _ rfl
    simp

theorem ensures_pointer_begin (previous : Option Text) (clock : Option Nat) (process : Nat) :
    Ensures (RevisionTransaction.begin root previous clock process) files
      (fun _ after => view root after .current = view root files .current)
      fun _ after => view root after .current = view root files .current := by
  apply (steady_begin previous clock process files).weaken
  · exact fun _ _ keeps => keeps.same .current (by simp)
  · exact fun _ _ keeps => keeps.same .current (by simp)

/-- A transaction that is not validated does not touch the pointer. -/
theorem ensures_pointer (named : Named root transaction)
    (isCandidate : transaction.state = .candidate) (method : Method) :
    Ensures (method.program transaction) files
      (fun _ after => view root after .current = view root files .current)
      fun _ after => view root after .current = view root files .current := by
  cases method with
  | stage artifactName bytes =>
      have staged := steady_stage named artifactName bytes files
      have sparesPointer : ∀ after, Keeps root (Below transaction.revisionId) files after →
          view root after .current = view root files .current := by
        intro after keeps
        apply keeps.same
        rintro ⟨_, _, ⟨⟩⟩
      apply (staged.weaken (fun _ after keeps => sparesPointer after keeps)
        fun _ after keeps => sparesPointer after keeps).bind
      intro _ after same
      exact Io.ensures_pure same
  | validate validator =>
      change Ensures (transaction.validate validator) files _ _
      unfold RevisionTransaction.validate
      rw [expect_bind, if_pos isCandidate]
      apply (Io.ensures_readTree files _).bind
      rintro tree after ⟨_, same⟩
      rw [same]
      split
      · exact Io.ensures_throw rfl
      · exact Io.ensures_pure rfl
  | commit =>
      change Ensures transaction.commit files _ _
      unfold RevisionTransaction.commit
      rw [expect_bind, if_neg (by rw [isCandidate]; decide)]
      exact Io.ensures_throw rfl
  | rollback =>
      change Ensures transaction.rollback files _ _
      unfold RevisionTransaction.rollback
      rw [expect_bind, if_neg (by rw [isCandidate]; decide)]
      exact Io.ensures_throw rfl

end Methods

/-! ### Runs -/

section Runs

variable {system next : System} {event : Event} {emitted : List Accepted}

/-- One call of a method, as the file system sees it. -/
theorem ensures_method {index : Nat} {transaction : RevisionTransaction}
    (sound : Sound root files transactions accepted)
    (found : transactions[index]? = some transaction) (method : Method) :
    Ensures (method.program transaction) files
      (fun next after => Sound root after (transactions.set index next)
        (accepted ++ method.accepts transaction files))
      fun _ after => Sound root after transactions accepted := by
  have member := List.mem_of_getElem? found
  have named := sound.named transaction member
  have unchanged : transactions.set index transaction = transactions := by
    obtain ⟨inRange, isTransaction⟩ := List.getElem?_eq_some_iff.mp found
    rw [← isTransaction]
    exact List.set_getElem_self inRange
  cases method with
  | stage artifactName bytes =>
      change Ensures (do transaction.stage artifactName bytes; pure transaction) files _ _
      by_cases isCandidate : transaction.state = .candidate
      · have staged : Ensures (transaction.stage artifactName bytes) files
            (fun _ after => Sound root after transactions accepted)
            fun _ after => Sound root after transactions accepted :=
          (steady_stage named artifactName bytes files).weaken
            (fun _ _ keeps => sound.stage member isCandidate keeps)
            fun _ _ keeps => sound.stage member isCandidate keeps
        apply staged.bind
        intro _ after afterSound
        apply Io.ensures_pure
        simpa [Method.accepts, unchanged] using afterSound
      · unfold RevisionTransaction.stage
        rw [bind_assoc, expect_bind, if_neg isCandidate]
        exact Io.ensures_throw sound
  | validate validator =>
      apply (ensures_validate sound found validator).weaken
      · rintro next after ⟨_, _, afterSound⟩
        exact afterSound
      · rintro _ _ rfl
        exact sound
  | commit =>
      apply (ensures_commit sound found).weaken
      · intro next after afterSound
        simpa [Method.accepts] using afterSound
      · exact fun _ _ afterSound => afterSound
  | rollback =>
      apply (ensures_rollback sound found).weaken
      · intro next after afterSound
        simpa [Method.accepts] using afterSound
      · exact fun _ _ afterSound => afterSound

/-- What a call ensures holds after the step that makes it. -/
theorem step_ensures {post : System → List Accepted → Prop}
    (stepped : step root system event = some (next, emitted))
    (onBegin : ∀ previous clock process, event.call = .begin previous clock process →
      Ensures (RevisionTransaction.begin root previous clock process) system.files
        (fun transaction after => post ⟨after, system.transactions ++ [transaction]⟩ [])
        fun _ after => post ⟨after, system.transactions⟩ [])
    (onMethod : ∀ index method transaction, event.call = .method index method →
      system.transactions[index]? = some transaction →
      Ensures (method.program transaction) system.files
        (fun advanced after => post ⟨after, system.transactions.set index advanced⟩
          (method.accepts transaction system.files))
        fun _ after => post ⟨after, system.transactions⟩ []) :
    post next emitted := by
  rw [← stepOn_unix] at stepped
  apply stepOn_ensures stepped onBegin
  intro index method transaction isCall found
  rw [Method.programOn_unix]
  exact onMethod index method transaction isCall found

/-- The ids of the transactions begun so far stay. -/
theorem revisionIds_step (stepped : step root system event = some (next, emitted)) :
    revisionIds system.transactions <+: revisionIds next.transactions := by
  apply @step_ensures root system next event emitted
    (fun next _ => revisionIds system.transactions <+: revisionIds next.transactions) stepped
  · intro previous clock process _
    apply (Io.ensures_trivial _ system.files).weaken
    · intro transaction _ _
      rw [revisionIds, revisionIds, List.map_append]
      exact List.prefix_append _ _
    · exact fun _ _ _ => List.prefix_rfl
  · intro index method transaction _ found
    apply (ensures_revisionId transaction method system.files).weaken
    · intro advanced _ sameId
      rw [revisionIds_set found sameId]
    · exact fun _ _ _ => List.prefix_rfl

theorem Sound.step (sound : Sound root system.files system.transactions accepted)
    (stepped : Controller.step root system event = some (next, emitted)) :
    (revisionIds next.transactions).Nodup →
      Sound root next.files next.transactions (accepted ++ emitted) := by
  apply @step_ensures root system next event emitted
    (fun next emitted => (revisionIds next.transactions).Nodup →
      Sound root next.files next.transactions (accepted ++ emitted)) stepped
  · intro previous clock process _
    rw [List.append_nil]
    apply (ensures_begin sound previous clock process).weaken
    · exact fun _ _ begun => begun
    · exact fun _ _ afterSound _ => afterSound
  · intro index method transaction _ found
    rw [List.append_nil]
    apply (ensures_method sound found method).weaken
    · exact fun _ _ afterSound _ => afterSound
    · exact fun _ _ afterSound _ => afterSound

/-- A call that changes the pointer is one on a validated transaction. -/
theorem Sound.pointer_step (sound : Sound root system.files system.transactions accepted)
    (stepped : Controller.step root system event = some (next, emitted))
    (changed : view root next.files .current ≠ view root system.files .current) :
    ∃ index method transaction, event.call = .method index method ∧
      system.transactions[index]? = some transaction ∧
      ∃ entry ∈ accepted, entry.revision = transaction.revisionId := by
  by_contra notValidated
  apply changed
  apply @step_ensures root system next event emitted
    (fun next _ => view root next.files .current = view root system.files .current) stepped
  · exact fun previous clock process _ => ensures_pointer_begin previous clock process
  · intro index method transaction isCall found
    have member := List.mem_of_getElem? found
    by_cases isCandidate : transaction.state = .candidate
    · exact ensures_pointer (sound.named transaction member) isCandidate method
    · exact absurd ⟨index, method, transaction, isCall, found,
        sound.settled transaction member isCandidate⟩ notValidated

theorem sound_empty (empty : ∀ path, path ≠ [] → files.lookup (root ++ path) = none) :
    Sound root files [] [] := by
  have nowhere : ∀ place : Place, view root files place = none :=
    fun place => empty place.path place.path_ne_nil
  constructor
  · exact List.nodup_nil
  · exact fun _ member => absurd member List.not_mem_nil
  · intro path notRoot present
    exact absurd (empty path notRoot) present
  · intro id path present
    rw [nowhere, nowhere] at present
    simp at present
  · exact fun _ member => absurd member List.not_mem_nil
  · exact fun _ member => absurd member List.not_mem_nil
  · exact List.nodup_nil
  · exact fun _ member => absurd member List.not_mem_nil
  · intro node present
    rw [nowhere] at present
    cases present

/-- The invariant after any calls.  The ids only have to differ at the end. -/
theorem sound_run {events : List Event}
    (empty : ∀ path, path ≠ [] → files.lookup (root ++ path) = none)
    (ran : run (step root) ⟨files, []⟩ events = some (system, accepted))
    (distinct : (revisionIds system.transactions).Nodup) :
    Sound root system.files system.transactions accepted := by
  apply run_invariant ran
    (fun _ accepted system => (revisionIds system.transactions).Nodup →
      Sound root system.files system.transactions accepted)
  · exact fun _ => sound_empty empty
  · intro past event accepted system next emitted _ _ stepped inductionHypothesis nextDistinct
    have systemDistinct := nextDistinct.sublist (revisionIds_step stepped).sublist
    exact (inductionHypothesis systemDistinct).step stepped nextDistinct
  · exact distinct

end Runs

/-- If the file `current` is there, it is one complete line; the line names a directory
under `revisions`, and that holds exactly what the validator of the revision accepted. -/
def ActiveRevision (root : List Text) (files : FileSystem Text) (accepted : List Accepted) : Prop :=
  ∀ node, files.lookup (root ++ [currentName]) = some node →
    ∃ line, node = .file (utf8 (line ++ ['\n'])) ∧ '\n' ∉ line ∧
      ∃ entry ∈ accepted,
        joinPath (root ++ [revisionsName]) line = root ++ [revisionsName, entry.revision] ∧
        files.lookup (root ++ [revisionsName, entry.revision]) = some .directory ∧
        ∀ path, files.lookup (root ++ revisionsName :: entry.revision :: path) =
          entry.artifacts path

/-- After any calls on any transactions with different ids, with any file operations
failing: `current` names an accepted revision as its validator saw it, every revision was
accepted once, and no call on a transaction without an accepted revision changes `current`. -/
theorem active_revision_validated {root : List Text} {files : FileSystem Text}
    {events : List Event} {system : System} {accepted : List Accepted}
    (empty : ∀ path, path ≠ [] → files.lookup (root ++ path) = none)
    (ran : run (step root) ⟨files, []⟩ events = some (system, accepted))
    (distinct : (revisionIds system.transactions).Nodup) :
    ActiveRevision root system.files accepted ∧
      (accepted.map (·.revision)).Nodup ∧
      ∀ event next emitted, step root system event = some (next, emitted) →
        next.files.lookup (root ++ [currentName]) ≠ system.files.lookup (root ++ [currentName]) →
        ∃ index method transaction, event.call = .method index method ∧
          system.transactions[index]? = some transaction ∧
          ∃ entry ∈ accepted, entry.revision = transaction.revisionId := by
  have sound := sound_run empty ran distinct
  refine ⟨?_, sound.once, fun _ _ _ stepped changed => sound.pointer_step stepped changed⟩
  intro node present
  obtain ⟨line, isLine, oneLine, entry, member, isNamed, inRevisions⟩ := sound.active node present
  refine ⟨line, isLine, oneLine, entry, member, ?_, ?_, fun path => (inRevisions path).1⟩
  · rw [joinPath_plain isNamed, List.append_assoc]
    rfl
  · exact (inRevisions []).1.trans (sound.accounted entry member).2.1

/-- A validator that asks for a file `config.yaml`. -/
def requireConfig : CandidateValidator := fun files candidate =>
  match files.lookup (joinPath candidate "config.yaml".toList) with
  | some (.file _) => .ok ()
  | _ => .error "config.yaml is missing".toList

/-- Two revisions are committed, the second is rolled back to the first.  On the way a write
fails after a byte, a commit comes before the validation, and another does not find its
directory because the rename fails. -/
def exampleEvents : List Event :=
  [⟨.begin none (some 5) 7, []⟩,
    ⟨.begin (some (revisionName 5 7)) (some 6) 7, []⟩,
    ⟨.method 0 (.stage "config.yaml".toList [1, 2]), [none, some ⟨.other, 1⟩]⟩,
    ⟨.method 0 (.stage "config.yaml".toList [1, 2]), []⟩,
    ⟨.method 1 (.stage "config.yaml".toList [3]), []⟩,
    ⟨.method 0 .commit, []⟩,
    ⟨.method 0 (.validate requireConfig), []⟩,
    ⟨.method 1 (.validate requireConfig), []⟩,
    ⟨.method 0 .commit, [some ⟨.other, 0⟩]⟩,
    ⟨.method 0 .commit, []⟩,
    ⟨.method 1 .commit, []⟩,
    ⟨.method 1 .rollback, []⟩]

def topDirectory : FileSystem Text := (∅ : FileSystem Text).insert [] .directory

theorem active_revision_validated_rollback :
    ∃ system accepted,
      run (step []) ⟨topDirectory, []⟩ exampleEvents = some (system, accepted) ∧
        (revisionIds system.transactions).Nodup ∧
        system.files.lookup [currentName] = some (.file (utf8 (revisionName 5 7 ++ ['\n']))) ∧
        ActiveRevision [] system.files accepted := by
  have empty : ∀ path : List Text, path ≠ [] → topDirectory.lookup ([] ++ path) = none := by
    intro path notRoot
    rw [List.nil_append, topDirectory, Table.lookup_insert_eq, if_neg notRoot]
    rfl
  have evaluated : (run (step []) ⟨topDirectory, []⟩ exampleEvents).any (fun result =>
      decide ((revisionIds result.1.transactions).Nodup ∧
        result.1.files.lookup [currentName] =
          some (.file (utf8 (revisionName 5 7 ++ ['\n']))))) = true := by
    decide +kernel
  cases ran : run (step []) ⟨topDirectory, []⟩ exampleEvents with
  | none =>
      rw [ran] at evaluated
      cases evaluated
  | some result =>
      rw [ran, Option.any_some, decide_eq_true_eq] at evaluated
      obtain ⟨distinct, pointer⟩ := evaluated
      exact ⟨result.1, result.2, rfl, distinct, pointer,
        (active_revision_validated empty ran distinct).1⟩

end SmartFecTunnel.Controller
