import SmartFecTunnel.Controller.ActiveRevision
import SmartFecTunnel.Library.FaultRun

/-!
Contract: what a rollback restores (controller.rs).

A transaction records at its begin the revision that `current` holds, and its
rollback points `current` back at that one.  Other transactions may commit between
the begin and the commit.

Owns:
- a successful write of the pointer names the revision, on both platforms;
- a transaction keeps what it recorded, whatever calls follow;
- when a rollback undoes its own commit: exactly when `current` held at the commit
  what it held at the begin.

Does not own: what a failed write leaves.
-/

namespace SmartFecTunnel.Controller

open SmartFecTunnel.Library
open SmartFecTunnel.Library.Io (Ensures)

/-- The pointer file with one line. -/
def pointerFile (line : Text) : Node := .file (utf8 (line ++ ['\n']))

section Writing

variable {root : List Text} {files : FileSystem Text}

theorem joinPath_backupName (root : List Text) :
    joinPath root (backupName currentName) = root ++ [backupName currentName] :=
  @joinPath_of_normal (backupName currentName) [backupName currentName] (by decide) root

@[simp] theorem temporaryName_ne_currentName : temporaryName currentName ≠ currentName := by
  decide

@[simp] theorem currentName_ne_temporaryName : currentName ≠ temporaryName currentName := by
  decide

@[simp] theorem backupName_ne_currentName : backupName currentName ≠ currentName := by
  decide

@[simp] theorem currentName_ne_backupName : currentName ≠ backupName currentName := by
  decide

@[simp] theorem backupName_ne_temporaryName :
    backupName currentName ≠ temporaryName currentName := by
  decide

@[simp] theorem temporaryName_ne_backupName :
    temporaryName currentName ≠ backupName currentName := by
  decide

/-- An entry of the root. -/
def entry (root : List Text) (files : FileSystem Text) (name : Text) : Option Node :=
  files.lookup (root ++ [name])

/-- Removing one entry leaves the others. -/
theorem ensures_removeFile_other {removed other : Text} (different : other ≠ removed) :
    Ensures (Io.removeFile (root ++ [removed])) files
      (fun _ after => entry root after other = entry root files other) fun _ _ => True := by
  apply (Io.ensures_atomic _ files).weaken
  · intro _ after isRemoved
    rw [entry, FileSystem.lookup_removeFile isRemoved, if_neg (by simpa using different)]
    rfl
  · exact fun _ _ _ => trivial

theorem ensures_rename_entry {source target : Text} (different : source ≠ target) (other : Text) :
    Ensures (Io.rename (root ++ [source]) (root ++ [target])) files
      (fun _ after => entry root after other =
        if other = target then entry root files source
        else if other = source then none else entry root files other) fun _ _ => True := by
  apply (Io.ensures_atomic _ files).weaken
  · intro _ after renamed
    rw [(FileSystem.rename_relocates renamed (by simpa using different)).2]
    exact FileSystem.lookup_relocate_sibling different other files
  · exact fun _ _ _ => trivial

/-- The swap puts the temporary file in the place of the pointer. -/
theorem ensures_swapPointer {line : Text}
    (drafted : entry root files (temporaryName currentName) = some (pointerFile line)) :
    Ensures (swapPointer (root ++ [temporaryName currentName]) (root ++ [backupName currentName])
        (root ++ [currentName])) files
      (fun _ after => entry root after currentName = some (pointerFile line)) fun _ _ => True := by
  unfold swapPointer
  have cleared : Ensures (clearBackup (root ++ [backupName currentName])) files
      (fun _ after => entry root after (temporaryName currentName) = some (pointerFile line))
      fun _ _ => True := by
    unfold clearBackup
    apply (ensures_pathExists _ files _).bind
    intro there looked same
    rw [same]
    split
    · apply (ensures_removeFile_other temporaryName_ne_backupName).weaken
      · exact fun _ _ same => same.trans drafted
      · exact fun _ _ _ => trivial
    · exact Io.ensures_pure drafted
  apply cleared.bind
  intro _ second secondDrafted
  unfold exchangePointer
  have kept : Ensures (Io.rename (root ++ [currentName]) (root ++ [backupName currentName])) second
      (fun _ after => entry root after (temporaryName currentName) = some (pointerFile line))
      fun _ _ => True := by
    apply (ensures_rename_entry currentName_ne_backupName (temporaryName currentName)).weaken
    · intro _ after moved
      simpa [moved] using secondDrafted
    · exact fun _ _ _ => trivial
  apply kept.bind
  intro _ third thirdDrafted
  have replaced : Ensures (Io.rename (root ++ [temporaryName currentName]) (root ++ [currentName]))
      third (fun _ after => entry root after currentName = some (pointerFile line))
      fun _ _ => True := by
    apply (ensures_rename_entry temporaryName_ne_currentName currentName).weaken
    · intro _ after moved
      rw [moved, if_pos rfl, thirdDrafted]
    · exact fun _ _ _ => trivial
  apply Ensures.bind
  · apply replaced.tryCatch
    intro error after _
    apply (Ensures.ignore (Io.ensures_trivial _ after)).bind
    intro _ last _
    exact Io.ensures_throw trivial
  · intro _ last pointed
    apply (ensures_removeFile_other currentName_ne_backupName).weaken
    · exact fun _ _ same => same.trans pointed
    · exact fun _ _ _ => trivial

/-- A successful write of the pointer names the revision. -/
theorem ensures_writePointerOn (platform : Platform) (line : Text) :
    Ensures (writePointerOn platform root currentName line) files
      (fun _ after => view root after .current = some (pointerFile line)) fun _ _ => True := by
  cases platform with
  | unix =>
      apply (ensures_writePointer line).weaken
      · exact fun _ _ points => points.pointer
      · exact fun _ _ _ => trivial
  | windows =>
      unfold writePointerOn
      rw [joinPath_temporaryName, joinPath_currentName, joinPath_backupName]
      have created : Ensures (Io.createNew (root ++ Place.temporary.path)) files
          (fun _ after => entry root after (temporaryName currentName) = some (.file []))
          fun _ _ => True := by
        apply (Io.ensures_atomic _ files).weaken
        · intro _ after isCreated
          rw [entry, (FileSystem.lookup_addNode isCreated).2]
          exact if_pos rfl
        · exact fun _ _ _ => trivial
      apply created.bind
      intro _ first empty
      have written : Ensures (Io.writeAll (root ++ Place.temporary.path)
            (utf8 (line ++ ['\n']))) first
          (fun _ after => entry root after (temporaryName currentName) = some (pointerFile line))
          fun _ _ => True := by
        apply (Io.ensures_operation _ _ first).weaken
        · rintro _ _ ⟨⟩
          exact FileSystem.lookup_append_self empty _
        · exact fun _ _ _ => trivial
      apply written.bind
      intro _ second drafted
      have synced : Ensures Io.syncAll second
          (fun _ after => entry root after (temporaryName currentName) = some (pointerFile line))
          fun _ _ => True := by
        apply (Io.ensures_atomic _ second).weaken
        · rintro _ _ ⟨⟩
          exact drafted
        · exact fun _ _ _ => trivial
      apply synced.bind
      intro _ third drafted
      apply (ensures_pathExists _ third _).bind
      intro there looked same
      rw [same]
      split
      · exact ensures_swapPointer drafted
      · apply (ensures_rename_entry temporaryName_ne_currentName currentName).weaken
        · intro _ after moved
          change entry root after currentName = _
          rw [moved, if_pos rfl, drafted]
        · exact fun _ _ _ => trivial

end Writing

/-! ### One transaction -/

section Methods

variable {root : List Text} {files : FileSystem Text} {transaction : RevisionTransaction}

/-- `begin` records the revision it is given. -/
theorem ensures_begin_named (previous : Option Text) (clock : Option Nat) (process : Nat) :
    Ensures (RevisionTransaction.begin root previous clock process) files
      (fun transaction _ => Named root transaction ∧ transaction.previous = previous)
      fun _ _ => True := by
  apply ensures_begin_of trivial
  · exact fun _ _ _ => trivial
  · exact fun named _ isPrevious _ _ => ⟨named, isPrevious⟩

/-- `stage` and `validate` leave the pointer, in whatever state the transaction is. -/
theorem ensures_pointer_quiet (platform : Platform) (named : Named root transaction)
    {method : Method} (quiet : method ≠ .commit ∧ method ≠ .rollback) :
    Ensures (method.programOn platform transaction) files
      (fun _ after => view root after .current = view root files .current)
      fun _ after => view root after .current = view root files .current := by
  by_cases isCandidate : transaction.state = .candidate
  · cases method with
    | stage artifactName bytes => exact ensures_pointer named isCandidate (.stage artifactName bytes)
    | validate validator => exact ensures_pointer named isCandidate (.validate validator)
    | commit => exact absurd rfl quiet.1
    | rollback => exact absurd rfl quiet.2
  · cases method with
    | stage artifactName bytes =>
        change Ensures (do transaction.stage artifactName bytes; pure transaction) files _ _
        unfold RevisionTransaction.stage
        rw [bind_assoc, expect_bind, if_neg isCandidate]
        exact Io.ensures_throw rfl
    | validate validator =>
        change Ensures (transaction.validate validator) files _ _
        unfold RevisionTransaction.validate
        rw [expect_bind, if_neg isCandidate]
        exact Io.ensures_throw rfl
    | commit => exact absurd rfl quiet.1
    | rollback => exact absurd rfl quiet.2

/-- A successful rollback points `current` at the recorded revision. -/
theorem ensures_rollbackOn (platform : Platform) (named : Named root transaction) :
    Ensures (transaction.rollbackOn platform) files
      (fun _ after => ∃ previous, transaction.previous = some previous ∧
        view root after .current = some (pointerFile previous))
      fun _ _ => True := by
  unfold RevisionTransaction.rollbackOn
  apply (Io.ensures_trivial _ files).bind
  intro _ first _
  cases isPrevious : transaction.previous with
  | none => exact Io.ensures_throw trivial
  | some previous =>
      rw [named.ownRoot]
      apply (Io.ensures_trivial _ first).bind
      intro there second _
      split
      · exact Io.ensures_throw trivial
      · apply (Ensures.adapt (ensures_writePointerOn platform previous)).bind
        intro _ third pointed
        exact Io.ensures_pure ⟨previous, rfl, pointed⟩

end Methods

/-! ### Calls -/

/-- A call that is neither a commit nor a rollback. -/
def Event.IsQuiet (event : Event) : Prop :=
  ∀ index, event.call ≠ .method index .commit ∧ event.call ≠ .method index .rollback

section Calls

variable {platform : Platform} {root : List Text} {system next : System} {event : Event}
  {emitted : List Accepted}

/-- Every transaction has its own directories. -/
def AllNamed (root : List Text) (system : System) : Prop :=
  ∀ transaction ∈ system.transactions, Named root transaction

theorem AllNamed.step (named : AllNamed root system)
    (stepped : stepOn platform root system event = some (next, emitted)) : AllNamed root next := by
  apply @stepOn_ensures platform root system next event emitted
    (fun next _ => AllNamed root next) stepped
  · intro previous clock process _
    apply (ensures_begin_named previous clock process).weaken
    · intro transaction after begun other member
      rcases List.mem_append.mp member with old | isNew
      · exact named other old
      · rw [List.mem_singleton.mp isNew]
        exact begun.1
    · exact fun _ _ _ => named
  · intro index method transaction _ found
    have own := named transaction (List.mem_of_getElem? found)
    apply (ensures_state platform transaction method system.files).weaken
    · intro advanced after isAdvanced other member
      rcases List.mem_or_eq_of_mem_set member with old | rfl
      · exact named other old
      · obtain ⟨state, rfl⟩ := isAdvanced
        exact own.withState state
    · exact fun _ _ _ => named

/-- What a transaction recorded at its begin stays. -/
def Recorded (previous : Option Text) (index : Nat) (system : System) : Prop :=
  ∃ transaction, system.transactions[index]? = some transaction ∧ transaction.previous = previous

theorem Recorded.step {previous : Option Text} {index : Nat}
    (recorded : Recorded previous index system)
    (stepped : stepOn platform root system event = some (next, emitted)) :
    Recorded previous index next := by
  obtain ⟨transaction, isTransaction, isPrevious⟩ := recorded
  apply @stepOn_ensures platform root system next event emitted
    (fun next _ => Recorded previous index next) stepped
  · intro other clock process _
    apply (Io.ensures_trivial _ system.files).weaken
    · intro added after _
      exact ⟨transaction, List.getElem?_append_left
        (List.getElem?_eq_some_iff.mp isTransaction).1 ▸ isTransaction, isPrevious⟩
    · exact fun _ _ _ => ⟨transaction, isTransaction, isPrevious⟩
  · intro position method called _ found
    apply (ensures_state platform called method system.files).weaken
    · intro advanced after isAdvanced
      obtain ⟨state, rfl⟩ := isAdvanced
      by_cases same : position = index
      · subst same
        rw [isTransaction] at found
        cases found
        refine ⟨{ transaction with state }, ?_, isPrevious⟩
        exact List.getElem?_set_self (List.getElem?_eq_some_iff.mp isTransaction).1
      · exact ⟨transaction, (List.getElem?_set_ne same).trans isTransaction, isPrevious⟩
    · exact fun _ _ _ => ⟨transaction, isTransaction, isPrevious⟩

/-- A quiet call leaves the pointer. -/
theorem AllNamed.quiet_step (named : AllNamed root system) (quiet : event.IsQuiet)
    (stepped : stepOn platform root system event = some (next, emitted)) :
    view root next.files .current = view root system.files .current := by
  apply @stepOn_ensures platform root system next event emitted
    (fun next _ => view root next.files .current = view root system.files .current) stepped
  · exact fun previous clock process _ => ensures_pointer_begin previous clock process
  · intro index method transaction isCall found
    have own := named transaction (List.mem_of_getElem? found)
    apply ensures_pointer_quiet platform own
    constructor
    · rintro rfl
      exact (quiet index).1 isCall
    · rintro rfl
      exact (quiet index).2 isCall

end Calls

/-! ### Runs -/

/-- The calls lead from one system to the other. -/
def Runs (platform : Platform) (root : List Text) (first : System) (events : List Event)
    (last : System) : Prop :=
  ∃ accepted, run (stepOn platform root) first events = some (last, accepted)

/-- The call leads from one system to the other. -/
def Calls (platform : Platform) (root : List Text) (system : System) (event : Event)
    (next : System) : Prop :=
  ∃ accepted, stepOn platform root system event = some (next, accepted)

/-- The transaction is in the state. -/
def InState (system : System) (index : Nat) (state : TransactionState) : Prop :=
  (system.transactions[index]?).map (·.state) = some state

instance (system : System) (index : Nat) (state : TransactionState) :
    Decidable (InState system index state) := inferInstanceAs (Decidable (_ = _))

/-- What `current` holds is this revision, or nothing. -/
def Holds (root : List Text) (files : FileSystem Text) (revision : Option Text) : Prop :=
  view root files .current = revision.map pointerFile

/-- A history of the transaction `index`: it is begun in `opened` with the revision that
`current` holds there, committed in `validated`, and rolled back with `rolledBack` as the
result. -/
structure RolledBack (platform : Platform) (root : List Text) (files : FileSystem Text)
    (index : Nat) (past waiting later : List Event) (opened validated rolledBack : System) :
    Prop where
  opens : Runs platform root ⟨files, []⟩ past opened
  begins : ∃ previous clock process faults begun,
    Calls platform root opened ⟨.begin previous clock process, faults⟩ begun ∧
      begun.transactions.length = opened.transactions.length + 1 ∧
      opened.transactions.length = index ∧ Holds root opened.files previous ∧
      Runs platform root begun waiting validated
  commits : InState validated index .validated ∧ ∃ faults committed last,
    Calls platform root validated ⟨.method index .commit, faults⟩ committed ∧
      InState committed index .committed ∧ Runs platform root committed later last ∧
      InState last index .committed ∧
      ∃ faults, Calls platform root last ⟨.method index .rollback, faults⟩ rolledBack
  succeeds : InState rolledBack index .rolledBack

section History

variable {platform : Platform} {root : List Text} {first last : System} {events : List Event}

theorem AllNamed.runs (named : AllNamed root first) (runs : Runs platform root first events last) :
    AllNamed root last := by
  obtain ⟨accepted, ran⟩ := runs
  apply run_invariant ran (fun _ _ system => AllNamed root system) named
  exact fun _ _ _ _ _ _ _ _ stepped held => held.step stepped

theorem Recorded.runs {previous : Option Text} {index : Nat}
    (recorded : Recorded previous index first) (runs : Runs platform root first events last) :
    Recorded previous index last := by
  obtain ⟨accepted, ran⟩ := runs
  apply run_invariant ran (fun _ _ system => Recorded previous index system) recorded
  exact fun _ _ _ _ _ _ _ _ stepped held => held.step stepped

/-- Quiet calls leave the pointer. -/
theorem AllNamed.quiet_runs (named : AllNamed root first)
    (quiet : ∀ event ∈ events, event.IsQuiet) (runs : Runs platform root first events last) :
    view root last.files .current = view root first.files .current := by
  obtain ⟨accepted, ran⟩ := runs
  have both : AllNamed root last ∧
      view root last.files .current = view root first.files .current := by
    apply run_invariant ran (fun _ _ system => AllNamed root system ∧
      view root system.files .current = view root first.files .current) ⟨named, rfl⟩
    intro past event _ system next _ isPrefix _ stepped held
    have isQuiet := quiet event (mem_of_front isPrefix)
    exact ⟨held.1.step stepped, (held.1.quiet_step isQuiet stepped).trans held.2⟩
  exact both.2

/-- A begin that adds a transaction records its revision and leaves the pointer. -/
theorem begin_recorded {opened begun : System} {previous : Option Text} {clock : Option Nat}
    {process : Nat} {faults : List (Option Fault)}
    (calls : Calls platform root opened ⟨.begin previous clock process, faults⟩ begun)
    (added : begun.transactions.length = opened.transactions.length + 1) :
    Recorded previous opened.transactions.length begun := by
  obtain ⟨accepted, stepped⟩ := calls
  revert added
  apply @stepOn_ensures platform root opened begun _ accepted
    (fun begun _ => begun.transactions.length = opened.transactions.length + 1 →
      Recorded previous opened.transactions.length begun) stepped
  · rintro other otherClock otherProcess ⟨⟩
    apply (ensures_begin_named previous clock process).weaken
    · intro transaction after isNew _
      exact ⟨transaction, List.getElem?_concat_length, isNew.2⟩
    · intro _ after _ added
      exact absurd added (Nat.succ_ne_self _).symm
  · intro index method transaction isCall
    cases isCall

/-- A rollback that succeeds points `current` at the recorded revision. -/
theorem rollback_points {index : Nat} {previous : Option Text} {last rolledBack : System}
    {faults : List (Option Fault)} (named : AllNamed root last)
    (recorded : Recorded previous index last) (isCommitted : InState last index .committed)
    (calls : Calls platform root last ⟨.method index .rollback, faults⟩ rolledBack)
    (succeeds : InState rolledBack index .rolledBack) :
    Holds root rolledBack.files previous := by
  obtain ⟨accepted, stepped⟩ := calls
  obtain ⟨transaction, isTransaction, isPrevious⟩ := recorded
  revert succeeds
  apply @stepOn_ensures platform root last rolledBack _ accepted
    (fun next _ => InState next index .rolledBack → Holds root next.files previous) stepped
  · intro other clock process isCall
    cases isCall
  · rintro position method called ⟨⟩ found
    rw [isTransaction] at found
    cases found
    have own := named transaction (List.mem_of_getElem? isTransaction)
    apply (ensures_rollbackOn platform own).weaken
    · intro advanced after pointed _
      obtain ⟨revision, isRevision, points⟩ := pointed
      rw [Holds, ← isPrevious, isRevision]
      exact points
    · intro _ after _ unchanged
      rw [InState] at isCommitted unchanged
      rw [isCommitted] at unchanged
      cases unchanged

theorem allNamed_nil (root : List Text) (files : FileSystem Text) : AllNamed root ⟨files, []⟩ :=
  fun _ member => absurd member List.not_mem_nil

/-- A rollback leaves what `current` held at the begin of its transaction. -/
theorem RolledBack.restores {files : FileSystem Text} {index : Nat}
    {past waiting later : List Event} {opened validated rolledBack : System}
    (history : RolledBack platform root files index past waiting later opened validated
      rolledBack) :
    view root rolledBack.files .current = view root opened.files .current := by
  obtain ⟨previous, clock, process, faults, begun, begins, added, isIndex, held, waits⟩ :=
    history.begins
  obtain ⟨_, commitFaults, committed, last, commits, _, continues, isCommitted, rollFaults, rolls⟩ :=
    history.commits
  have namedOpened := (allNamed_nil root files).runs history.opens
  obtain ⟨_, beginStep⟩ := id begins
  obtain ⟨_, commitStep⟩ := id commits
  have namedLast := (((namedOpened.step beginStep).runs waits).step commitStep).runs continues
  have recorded : Recorded previous index last :=
    (((isIndex ▸ begin_recorded begins added).runs waits).step commitStep).runs continues
  have restored := rollback_points namedLast recorded isCommitted rolls history.succeeds
  rw [Holds] at held restored
  exact restored.trans held.symm

/-- What `current` holds does not change between begin and commit when no transaction is
committed or rolled back in between. -/
theorem RolledBack.undisturbed {files : FileSystem Text} {index : Nat}
    {past waiting later : List Event} {opened validated rolledBack : System}
    (history : RolledBack platform root files index past waiting later opened validated
      rolledBack) (quiet : ∀ event ∈ waiting, event.IsQuiet) :
    view root validated.files .current = view root opened.files .current := by
  obtain ⟨previous, clock, process, faults, begun, begins, _, _, _, waits⟩ := history.begins
  obtain ⟨_, beginStep⟩ := begins
  have namedOpened := (allNamed_nil root files).runs history.opens
  have isQuiet : Event.IsQuiet ⟨.begin previous clock process, faults⟩ := by
    intro position
    simp
  have begunSame := namedOpened.quiet_step isQuiet beginStep
  exact ((namedOpened.step beginStep).quiet_runs quiet waits).trans begunSame

end History

/-- The rollback of a transaction leaves what `current` held immediately before its commit
exactly when that is what it held at its begin, as it does when no other transaction is
committed or rolled back in between. -/
theorem rollback_undoes_iff {platform : Platform} {root : List Text} {files : FileSystem Text}
    {index : Nat} {past waiting later : List Event} {opened validated rolledBack : System}
    (history : RolledBack platform root files index past waiting later opened validated
      rolledBack) :
    (view root rolledBack.files .current = view root validated.files .current ↔
      view root validated.files .current = view root opened.files .current) ∧
    ((∀ event ∈ waiting, event.IsQuiet) →
      view root rolledBack.files .current = view root validated.files .current) := by
  have restored := history.restores
  refine ⟨?_, ?_⟩
  · rw [restored]
    exact eq_comm
  · intro quiet
    rw [restored, history.undisturbed quiet]

/-! ### Two transactions -/

/-- The system after some calls on an empty root. -/
def systemAfter (events : List Event) : System :=
  ((run (stepOn .unix []) ⟨topDirectory, []⟩ events).map Prod.fst).getD ⟨∅, []⟩

theorem systemAfter_of_run {events : List Event} {system : System} {accepted : List Accepted}
    (ran : run (stepOn .unix []) ⟨topDirectory, []⟩ events = some (system, accepted)) :
    systemAfter events = system := by
  simp [systemAfter, ran]

theorem runs_systemAfter {front back : List Event}
    (defined : (run (stepOn .unix []) ⟨topDirectory, []⟩ (front ++ back)).isSome = true) :
    Runs .unix [] (systemAfter front) back (systemAfter (front ++ back)) := by
  obtain ⟨⟨last, accepted⟩, ran⟩ := Option.isSome_iff_exists.mp defined
  have isLast := systemAfter_of_run ran
  rw [run_append] at ran
  obtain ⟨⟨system, before⟩, ranFront, isRest⟩ := Option.bind_eq_some_iff.mp ran
  obtain ⟨⟨final, emitted⟩, ranBack, same⟩ := Option.map_eq_some_iff.mp isRest
  cases same
  rw [isLast, systemAfter_of_run ranFront]
  exact ⟨emitted, ranBack⟩

theorem calls_systemAfter {front : List Event} {event : Event}
    (defined : (run (stepOn .unix []) ⟨topDirectory, []⟩ (front ++ [event])).isSome = true) :
    Calls .unix [] (systemAfter front) event (systemAfter (front ++ [event])) := by
  obtain ⟨accepted, ran⟩ := runs_systemAfter defined
  obtain ⟨next, stepped, isRest⟩ := Option.bind_eq_some_iff.mp ran
  obtain ⟨last, isLast, same⟩ := Option.map_eq_some_iff.mp isRest
  cases isLast
  have isNext : next.1 = systemAfter (front ++ [event]) := congrArg Prod.fst same
  rw [← isNext]
  exact ⟨next.2, stepped⟩

/-- The calls of a new transaction up to its validation, apart from its begin. -/
def prepared (index : Nat) : List Event :=
  [⟨.method index (.stage "config.yaml".toList [1]), []⟩,
    ⟨.method index (.validate requireConfig), []⟩]

/-- The first revision is committed. -/
def firstRevision : List Event :=
  ⟨.begin none (some 5) 7, []⟩ :: prepared 0 ++ [⟨.method 0 .commit, []⟩]

/-- The begin of the second transaction. -/
def secondBegin : Event := ⟨.begin (some (revisionName 5 7)) (some 6) 7, []⟩

/-- A third transaction is begun and committed while the second is prepared. -/
def overtaken : List Event :=
  ⟨.begin (some (revisionName 5 7)) (some 7) 7, []⟩ :: prepared 1 ++ prepared 2 ++
    [⟨.method 2 .commit, []⟩]

/-- The second transaction is begun, prepared, committed and rolled back. -/
theorem rolledBack_of_evaluated {waiting : List Event}
    (defined : (run (stepOn .unix []) ⟨topDirectory, []⟩ (firstRevision ++ [secondBegin] ++ waiting ++
      [⟨.method 1 .commit, []⟩] ++ [⟨.method 1 .rollback, []⟩])).isSome = true)
    (states : (systemAfter (firstRevision ++ [secondBegin])).transactions.length = 2 ∧
      (systemAfter firstRevision).transactions.length = 1 ∧
      view [] (systemAfter firstRevision).files .current =
        some (pointerFile (revisionName 5 7)) ∧
      InState (systemAfter (firstRevision ++ [secondBegin] ++ waiting)) 1 .validated ∧
      InState (systemAfter (firstRevision ++ [secondBegin] ++ waiting ++
        [⟨.method 1 .commit, []⟩])) 1 .committed ∧
      InState (systemAfter (firstRevision ++ [secondBegin] ++ waiting ++
        [⟨.method 1 .commit, []⟩] ++ [⟨.method 1 .rollback, []⟩])) 1 .rolledBack) :
    RolledBack .unix [] topDirectory 1 firstRevision waiting [] (systemAfter firstRevision)
      (systemAfter (firstRevision ++ [secondBegin] ++ waiting))
      (systemAfter (firstRevision ++ [secondBegin] ++ waiting ++
        [⟨.method 1 .commit, []⟩] ++ [⟨.method 1 .rollback, []⟩])) := by
  have shorter : ∀ {front back : List Event},
      (run (stepOn .unix []) ⟨topDirectory, []⟩ (front ++ back)).isSome = true →
      (run (stepOn .unix []) ⟨topDirectory, []⟩ front).isSome = true := by
    intro front back whole
    obtain ⟨⟨last, accepted⟩, ran⟩ := Option.isSome_iff_exists.mp whole
    obtain ⟨state, before, ranFront⟩ := run_of_prefix (List.prefix_append front back) ran
    rw [ranFront]
    rfl
  have committed := shorter defined
  have validated := shorter committed
  have begun := shorter validated
  obtain ⟨count, one, holds, isValidated, isCommitted, isRolledBack⟩ := states
  constructor
  · exact @runs_systemAfter [] firstRevision (shorter begun)
  · exact ⟨_, _, _, _, _, calls_systemAfter begun,
      count.trans (congrArg Nat.succ one).symm, one, holds,
      runs_systemAfter validated⟩
  · exact ⟨isValidated, _, _, _, calls_systemAfter committed, isCommitted, ⟨[], rfl⟩, isCommitted, _,
      calls_systemAfter defined⟩
  · exact isRolledBack

/-- A transaction that nobody overtakes. -/
theorem rollback_undoes_alone :
    view [] (systemAfter (firstRevision ++ [secondBegin] ++ prepared 1 ++
        [⟨.method 1 .commit, []⟩] ++ [⟨.method 1 .rollback, []⟩])).files .current =
      view [] (systemAfter (firstRevision ++ [secondBegin] ++ prepared 1)).files .current := by
  have history := @rolledBack_of_evaluated (prepared 1) (by decide +kernel) (by decide +kernel)
  exact (rollback_undoes_iff history).2 (by simp [prepared, Event.IsQuiet])

/-- One that is overtaken between its begin and its commit: the rollback also undoes the
commit of the other. -/
theorem rollback_undoes_too_much :
    RolledBack .unix [] topDirectory 1 firstRevision overtaken [] (systemAfter firstRevision)
        (systemAfter (firstRevision ++ [secondBegin] ++ overtaken))
        (systemAfter (firstRevision ++ [secondBegin] ++ overtaken ++
          [⟨.method 1 .commit, []⟩] ++ [⟨.method 1 .rollback, []⟩])) ∧
      view [] (systemAfter (firstRevision ++ [secondBegin] ++ overtaken ++
          [⟨.method 1 .commit, []⟩] ++ [⟨.method 1 .rollback, []⟩])).files .current ≠
        view [] (systemAfter (firstRevision ++ [secondBegin] ++ overtaken)).files .current :=
  ⟨rolledBack_of_evaluated (by decide +kernel) (by decide +kernel), by decide +kernel⟩

end SmartFecTunnel.Controller
