import SmartFecTunnel.Controller.Places

/-!
Contract: where the artifacts of every accepted revision are.

Before its validation the directory of a transaction is a candidate.  Afterwards
nothing writes into it, and it is a candidate or a revision but never both.  The
directory that `current` names is a revision, so no later move concerns it.

Owns: the invariant, and that it survives each way in which a call can change
the tree or a transaction.

Does not own: the programs of the methods.
-/

namespace SmartFecTunnel.Controller

open SmartFecTunnel.Library

/-! ### The invariant -/

/-- The accepted artifacts are still in the candidate directory. -/
def InCandidates (root : List Text) (files : FileSystem Text) (accepted : Accepted) : Prop :=
  ∀ path, view root files (.candidate accepted.revision path) = accepted.artifacts path ∧
    view root files (.revision accepted.revision path) = none

/-- The accepted artifacts are a revision. -/
def InRevisions (root : List Text) (files : FileSystem Text) (accepted : Accepted) : Prop :=
  ∀ path, view root files (.revision accepted.revision path) = accepted.artifacts path ∧
    view root files (.candidate accepted.revision path) = none

/-- The pointer is one line with the name of an accepted revision, which is in place. -/
def Active (root : List Text) (files : FileSystem Text) (accepted : List Accepted) : Prop :=
  ∀ node, view root files .current = some node →
    ∃ line, node = .file (utf8 (line ++ ['\n'])) ∧ '\n' ∉ line ∧
      ∃ entry ∈ accepted, components line = [.normal entry.revision] ∧ InRevisions root files entry

/-- The ids of the transactions. -/
def revisionIds (transactions : List RevisionTransaction) : List Text :=
  transactions.map (·.revisionId)

structure Sound (root : List Text) (files : FileSystem Text)
    (transactions : List RevisionTransaction) (accepted : List Accepted) : Prop where
  distinct : (revisionIds transactions).Nodup
  named : ∀ transaction ∈ transactions, Named root transaction
  placed : Placed root files
  /-- Every directory belongs to a transaction. -/
  known : ∀ id path, view root files (.candidate id path) ≠ none ∨
    view root files (.revision id path) ≠ none → id ∈ revisionIds transactions
  staged : ∀ transaction ∈ transactions, transaction.state = .candidate →
    view root files (.candidate transaction.revisionId []) = some .directory ∧
      (∀ path, view root files (.revision transaction.revisionId path) = none) ∧
      ∀ entry ∈ accepted, entry.revision ≠ transaction.revisionId
  settled : ∀ transaction ∈ transactions, transaction.state ≠ .candidate →
    ∃ entry ∈ accepted, entry.revision = transaction.revisionId
  once : (accepted.map (·.revision)).Nodup
  accounted : ∀ entry ∈ accepted, entry.revision ∈ revisionIds transactions ∧
    entry.artifacts [] = some .directory ∧
      (InCandidates root files entry ∨ InRevisions root files entry)
  active : Active root files accepted

section Invariant

variable {root : List Text} {files after : FileSystem Text}
  {transactions : List RevisionTransaction} {accepted : List Accepted}

/-- The same directories at the same places. -/
def SameRevision (root : List Text) (id : Text) (files after : FileSystem Text) : Prop :=
  ∀ path, view root after (.candidate id path) = view root files (.candidate id path) ∧
    view root after (.revision id path) = view root files (.revision id path)

theorem InCandidates.congr {entry : Accepted} (inCandidates : InCandidates root files entry)
    (same : SameRevision root entry.revision files after) : InCandidates root after entry := by
  intro path
  rw [(same path).1, (same path).2]
  exact inCandidates path

theorem InRevisions.congr {entry : Accepted} (inRevisions : InRevisions root files entry)
    (same : SameRevision root entry.revision files after) : InRevisions root after entry := by
  intro path
  rw [(same path).1, (same path).2]
  exact inRevisions path

theorem Active.congr (active : Active root files accepted)
    (sameCurrent : view root after .current = view root files .current)
    (inPlace : ∀ entry ∈ accepted, InRevisions root files entry → InRevisions root after entry) :
    Active root after accepted := by
  intro node present
  rw [sameCurrent] at present
  obtain ⟨line, isLine, oneLine, entry, member, isNamed, inRevisions⟩ := active node present
  exact ⟨line, isLine, oneLine, entry, member, isNamed, inPlace entry member inRevisions⟩

/-- A change of the tree that does not concern the transactions. -/
theorem Sound.change (sound : Sound root files transactions accepted)
    (placed : Placed root after)
    (unknown : ∀ id, id ∉ revisionIds transactions → SameRevision root id files after)
    (staged : ∀ transaction ∈ transactions, transaction.state = .candidate →
      view root after (.candidate transaction.revisionId []) =
          view root files (.candidate transaction.revisionId []) ∧
        ∀ path, view root after (.revision transaction.revisionId path) =
          view root files (.revision transaction.revisionId path))
    (located : ∀ entry ∈ accepted, InCandidates root after entry ∨ InRevisions root after entry)
    (active : Active root after accepted) : Sound root after transactions accepted := by
  constructor
  · exact sound.distinct
  · exact sound.named
  · exact placed
  · intro id path present
    by_cases isKnown : id ∈ revisionIds transactions
    · exact isKnown
    · rw [(unknown id isKnown path).1, (unknown id isKnown path).2] at present
      exact sound.known id path present
  · intro transaction member isCandidate
    obtain ⟨isDirectory, noRevision, notAccepted⟩ := sound.staged transaction member isCandidate
    obtain ⟨sameDirectory, sameRevision⟩ := staged transaction member isCandidate
    refine ⟨by rw [sameDirectory, isDirectory], ?_, notAccepted⟩
    intro path
    rw [sameRevision, noRevision path]
  · exact sound.settled
  · exact sound.once
  · intro entry member
    obtain ⟨isKnown, isDirectory, _⟩ := sound.accounted entry member
    exact ⟨isKnown, isDirectory, located entry member⟩
  · exact active

/-- The artifacts of an accepted revision stay where they are. -/
theorem Sound.located (sound : Sound root files transactions accepted) {entry : Accepted}
    (member : entry ∈ accepted) (same : SameRevision root entry.revision files after) :
    InCandidates root after entry ∨ InRevisions root after entry := by
  obtain inCandidates | inRevisions := (sound.accounted entry member).2.2
  · exact Or.inl (inCandidates.congr same)
  · exact Or.inr (inRevisions.congr same)

/-- A change that spares the pointer and the directories of all revisions. -/
theorem Sound.of_keeps {touched : Place → Prop} (sound : Sound root files transactions accepted)
    (keeps : Keeps root touched files after)
    (harmless : ∀ place, touched place →
      place = .candidates ∨ place = .revisions ∨ place = .temporary) :
    Sound root after transactions accepted := by
  have same : ∀ id, SameRevision root id files after := by
    intro id path
    constructor
    · apply keeps.same
      intro isTouched
      simpa using harmless _ isTouched
    · apply keeps.same
      intro isTouched
      simpa using harmless _ isTouched
  have sameCurrent : view root after .current = view root files .current := by
    apply keeps.same
    intro isTouched
    simpa using harmless _ isTouched
  apply sound.change (keeps.placed sound.placed)
  · exact fun id _ => same id
  · exact fun transaction _ _ =>
      ⟨(same transaction.revisionId []).1, fun path => (same transaction.revisionId path).2⟩
  · exact fun entry member => sound.located member (same entry.revision)
  · exact sound.active.congr sameCurrent fun entry _ inRevisions =>
      inRevisions.congr (same entry.revision)

/-- Writes below a candidate directory leave every revision. -/
theorem Keeps.revision_of_below {own : Text} (keeps : Keeps root (Below own) files after)
    (id : Text) (path : List Text) :
    view root after (.revision id path) = view root files (.revision id path) := by
  apply keeps.same
  rintro ⟨_, _, ⟨⟩⟩

theorem Keeps.sameRevision_of_below {own id : Text} (keeps : Keeps root (Below own) files after)
    (different : id ≠ own) : SameRevision root id files after := by
  intro path
  refine ⟨?_, keeps.revision_of_below id path⟩
  apply keeps.same
  rintro ⟨_, _, ⟨⟩⟩
  exact different rfl

/-- Writes below the candidate directory of a transaction that is not validated. -/
theorem Sound.stage (sound : Sound root files transactions accepted)
    {transaction : RevisionTransaction} (member : transaction ∈ transactions)
    (isCandidate : transaction.state = .candidate)
    (keeps : Keeps root (Below transaction.revisionId) files after) :
    Sound root after transactions accepted := by
  have sameRevision := keeps.revision_of_below
  have same : ∀ id, id ≠ transaction.revisionId → SameRevision root id files after :=
    fun id different => keeps.sameRevision_of_below different
  have sameDirectory : ∀ id,
      view root after (.candidate id []) = view root files (.candidate id []) := by
    intro id
    apply keeps.same
    rintro ⟨_, notEmpty, ⟨⟩⟩
    exact notEmpty rfl
  have sameCurrent : view root after .current = view root files .current := by
    apply keeps.same
    rintro ⟨_, _, ⟨⟩⟩
  have notAccepted := (sound.staged transaction member isCandidate).2.2
  apply sound.change (keeps.placed sound.placed)
  · intro id isUnknown
    apply same
    rintro rfl
    exact isUnknown (List.mem_map_of_mem member)
  · exact fun other _ _ => ⟨sameDirectory other.revisionId, sameRevision other.revisionId⟩
  · exact fun entry inAccepted =>
      sound.located inAccepted (same entry.revision (notAccepted entry inAccepted))
  · exact sound.active.congr sameCurrent fun entry inAccepted inRevisions =>
      inRevisions.congr (same entry.revision (notAccepted entry inAccepted))

/-- The candidate directory of an accepted revision becomes its revision directory. -/
theorem Sound.move (sound : Sound root files transactions accepted) {entry : Accepted}
    (member : entry ∈ accepted) (inCandidates : InCandidates root files entry)
    (moves : Moves root (.candidate entry.revision) (.revision entry.revision) files after) :
    Sound root after transactions accepted ∧ InRevisions root after entry := by
  have moved : InRevisions root after entry := by
    intro path
    exact ⟨by rw [moves.arrived, (inCandidates path).1], moves.left path⟩
  have same : ∀ id, id ≠ entry.revision → SameRevision root id files after := by
    intro id other path
    constructor
    · apply moves.keeps.same
      rintro ⟨_, ⟨⟨⟩⟩ | ⟨⟨⟩⟩⟩
      exact other rfl
    · apply moves.keeps.same
      rintro ⟨_, ⟨⟨⟩⟩ | ⟨⟨⟩⟩⟩
      exact other rfl
  have sameCurrent : view root after .current = view root files .current := by
    apply moves.keeps.same
    rintro ⟨_, ⟨⟨⟩⟩ | ⟨⟨⟩⟩⟩
  refine ⟨?_, moved⟩
  apply sound.change (moves.keeps.placed sound.placed)
  · intro id isUnknown
    apply same
    rintro rfl
    exact isUnknown (sound.accounted entry member).1
  · intro transaction inTransactions isCandidate
    have other : transaction.revisionId ≠ entry.revision :=
      ((sound.staged transaction inTransactions isCandidate).2.2 entry member).symm
    exact ⟨(same _ other []).1, fun path => (same _ other path).2⟩
  · intro otherEntry inAccepted
    by_cases own : otherEntry = entry
    · rw [own]
      exact Or.inr moved
    · apply sound.located inAccepted
      apply same
      intro sameId
      exact own (List.inj_on_of_nodup_map sound.once inAccepted member sameId)
  · apply sound.active.congr sameCurrent
    intro activeEntry inAccepted inRevisions
    apply inRevisions.congr
    apply same
    -- the active revision is in place, and this one was not
    intro sameId
    have isDirectory := (sound.accounted activeEntry inAccepted).2.1
    rw [← (inRevisions []).1, sameId, (inCandidates []).2] at isDirectory
    cases isDirectory

/-- `current` is pointed at an accepted revision that is in place. -/
theorem Sound.point (sound : Sound root files transactions accepted) {line : Text}
    {entry : Accepted} (member : entry ∈ accepted) (inRevisions : InRevisions root files entry)
    (isNamed : components line = [.normal entry.revision]) (points : Points root line files after) :
    Sound root after transactions accepted := by
  have same : ∀ id, SameRevision root id files after := by
    intro id path
    constructor
    · apply points.keeps.same
      rintro (⟨⟨⟩⟩ | ⟨⟨⟩⟩)
    · apply points.keeps.same
      rintro (⟨⟨⟩⟩ | ⟨⟨⟩⟩)
  have oneLine : '\n' ∉ line := by
    obtain ⟨transaction, inTransactions, isEntry⟩ :=
      List.mem_map.mp (sound.accounted entry member).1
    obtain ⟨nanos, process, isName⟩ := (sound.named transaction inTransactions).ownName
    intro inLine
    have inName := mem_of_plain isNamed inLine (by decide) (by decide)
    rw [← isEntry, isName] at inName
    exact newline_notMem_revisionName nanos process inName
  apply sound.change (points.keeps.placed sound.placed)
  · exact fun id _ => same id
  · exact fun transaction _ _ =>
      ⟨(same transaction.revisionId []).1, fun path => (same transaction.revisionId path).2⟩
  · exact fun otherEntry inAccepted => sound.located inAccepted (same otherEntry.revision)
  · intro node present
    rw [points.pointer] at present
    cases present
    exact ⟨line, rfl, oneLine, entry, member, isNamed, inRevisions.congr (same entry.revision)⟩

/-- A directory under `revisions` is an accepted revision in place. -/
theorem Sound.exists_entry (sound : Sound root files transactions accepted) {id : Text}
    (present : view root files (.revision id []) = some .directory) :
    ∃ entry ∈ accepted, entry.revision = id ∧ InRevisions root files entry := by
  have isKnown : id ∈ revisionIds transactions := by
    apply sound.known id []
    rw [present]
    exact Or.inr (by simp)
  obtain ⟨transaction, member, isId⟩ := List.mem_map.mp isKnown
  have validated : transaction.state ≠ .candidate := by
    intro isCandidate
    have noRevision := (sound.staged transaction member isCandidate).2.1 []
    rw [isId, present] at noRevision
    cases noRevision
  obtain ⟨entry, inAccepted, isEntry⟩ := sound.settled transaction member validated
  refine ⟨entry, inAccepted, isEntry.trans isId, ?_⟩
  obtain inCandidates | inRevisions := (sound.accounted entry inAccepted).2.2
  · have noRevision := (inCandidates []).2
    rw [isEntry, isId, present] at noRevision
    cases noRevision
  · exact inRevisions

/-! ### Changes of a transaction -/

/-- A new transaction with its empty candidate directory. -/
theorem Sound.begin (sound : Sound root files transactions accepted)
    {transaction : RevisionTransaction} (named : Named root transaction)
    (isCandidate : transaction.state = .candidate)
    (fresh : transaction.revisionId ∉ revisionIds transactions)
    (keeps : Keeps root (· = .candidate transaction.revisionId []) files after)
    (isDirectory : view root after (.candidate transaction.revisionId []) = some .directory) :
    Sound root after (transactions ++ [transaction]) accepted := by
  have sameRevision : ∀ id path,
      view root after (.revision id path) = view root files (.revision id path) := by
    intro id path
    apply keeps.same
    rintro ⟨⟩
  have same : ∀ id, id ≠ transaction.revisionId → SameRevision root id files after := by
    intro id other path
    refine ⟨?_, sameRevision id path⟩
    apply keeps.same
    rintro ⟨⟩
    exact other rfl
  have sameCurrent : view root after .current = view root files .current := by
    apply keeps.same
    rintro ⟨⟩
  have notOwn : ∀ entry ∈ accepted, entry.revision ≠ transaction.revisionId := by
    intro entry inAccepted sameId
    exact fresh (sameId ▸ (sound.accounted entry inAccepted).1)
  have ids : revisionIds (transactions ++ [transaction]) =
      revisionIds transactions ++ [transaction.revisionId] := by
    simp [revisionIds]
  constructor
  · rw [ids]
    exact List.Nodup.append sound.distinct (List.nodup_singleton _) (by simpa using fresh)
  · intro other member
    obtain earlier | isNew := List.mem_append.mp member
    · exact sound.named other earlier
    · rw [List.mem_singleton.mp isNew]
      exact named
  · exact keeps.placed sound.placed
  · intro id path present
    rw [ids, List.mem_append, List.mem_singleton]
    by_cases own : id = transaction.revisionId
    · exact Or.inr own
    · rw [(same id own path).1, (same id own path).2] at present
      exact Or.inl (sound.known id path present)
  · intro other member otherCandidate
    obtain earlier | isNew := List.mem_append.mp member
    · have different : other.revisionId ≠ transaction.revisionId := by
        intro sameId
        exact fresh (sameId ▸ List.mem_map_of_mem earlier)
      obtain ⟨otherDirectory, noRevision, notAccepted⟩ := sound.staged other earlier otherCandidate
      refine ⟨by rw [(same _ different []).1, otherDirectory], ?_, notAccepted⟩
      intro path
      rw [sameRevision, noRevision path]
    · rw [List.mem_singleton.mp isNew]
      refine ⟨isDirectory, ?_, notOwn⟩
      intro path
      rw [sameRevision]
      by_contra present
      exact fresh (sound.known transaction.revisionId path (Or.inr present))
  · intro other member settled
    obtain earlier | isNew := List.mem_append.mp member
    · exact sound.settled other earlier settled
    · rw [List.mem_singleton.mp isNew] at settled
      exact absurd isCandidate settled
  · exact sound.once
  · intro entry inAccepted
    obtain ⟨isKnown, entryDirectory, _⟩ := sound.accounted entry inAccepted
    refine ⟨?_, entryDirectory, sound.located inAccepted (same _ (notOwn entry inAccepted))⟩
    rw [ids, List.mem_append]
    exact Or.inl isKnown
  · exact sound.active.congr sameCurrent fun entry inAccepted inRevisions =>
      inRevisions.congr (same _ (notOwn entry inAccepted))

section Advance

variable {index : Nat} {transaction next : RevisionTransaction}

/-- The transactions after one of them has changed. -/
theorem mem_set_cases (distinct : (revisionIds transactions).Nodup)
    (found : transactions[index]? = some transaction) {other : RevisionTransaction}
    (member : other ∈ transactions.set index next) :
    other = next ∨ other ∈ transactions ∧ other.revisionId ≠ transaction.revisionId := by
  obtain ⟨position, isOther⟩ := List.mem_iff_getElem?.mp member
  rw [List.getElem?_set] at isOther
  split at isOther
  next =>
    split at isOther
    · cases isOther
      exact Or.inl rfl
    · cases isOther
  next different =>
    refine Or.inr ⟨List.mem_of_getElem? isOther, ?_⟩
    intro sameId
    apply different
    have atIndex : (revisionIds transactions)[index]? = some transaction.revisionId := by
      simp [revisionIds, found]
    have atPosition : (revisionIds transactions)[position]? = some transaction.revisionId := by
      simp [revisionIds, isOther, sameId]
    have inRange : index < (revisionIds transactions).length :=
      (List.getElem?_eq_some_iff.mp atIndex).1
    exact (List.getElem?_inj inRange distinct).mp (atIndex.trans atPosition.symm)

theorem revisionIds_set (found : transactions[index]? = some transaction)
    (sameId : next.revisionId = transaction.revisionId) :
    revisionIds (transactions.set index next) = revisionIds transactions := by
  have atIndex : (revisionIds transactions)[index]? = some transaction.revisionId := by
    simp [revisionIds, found]
  obtain ⟨inRange, isId⟩ := List.getElem?_eq_some_iff.mp atIndex
  change (transactions.set index next).map (·.revisionId) = revisionIds transactions
  rw [List.map_set, sameId, ← isId]
  exact List.set_getElem_self inRange

/-- Every transaction keeps its names when one of them goes on. -/
theorem named_set (distinct : (revisionIds transactions).Nodup)
    (named : ∀ other ∈ transactions, Named root other)
    (found : transactions[index]? = some transaction) (state : TransactionState) :
    ∀ other ∈ transactions.set index { transaction with state }, Named root other := by
  intro other inSet
  obtain rfl | ⟨earlier, _⟩ := mem_set_cases distinct found inSet
  · exact (named transaction (List.mem_of_getElem? found)).withState state
  · exact named other earlier

/-- A validated transaction goes on. -/
theorem Sound.advance (sound : Sound root files transactions accepted)
    (found : transactions[index]? = some transaction) (validated : transaction.state ≠ .candidate)
    {state : TransactionState} (notBack : state ≠ .candidate) :
    Sound root files (transactions.set index { transaction with state }) accepted := by
  have member := List.mem_of_getElem? found
  have ids := @revisionIds_set transactions index transaction { transaction with state } found rfl
  constructor
  · rw [ids]
    exact sound.distinct
  · exact named_set sound.distinct sound.named found _
  · exact sound.placed
  · rw [ids]
    exact sound.known
  · intro other inSet isCandidate
    obtain rfl | ⟨earlier, _⟩ := mem_set_cases sound.distinct found inSet
    · exact absurd isCandidate notBack
    · exact sound.staged other earlier isCandidate
  · intro other inSet settled
    obtain rfl | ⟨earlier, _⟩ := mem_set_cases sound.distinct found inSet
    · exact sound.settled transaction member validated
    · exact sound.settled other earlier settled
  · exact sound.once
  · rw [ids]
    exact sound.accounted
  · exact sound.active

/-- The validator accepts the candidate directory. -/
theorem Sound.validate (sound : Sound root files transactions accepted)
    (found : transactions[index]? = some transaction)
    (isCandidate : transaction.state = .candidate) :
    Sound root files (transactions.set index { transaction with state := .validated })
      (accepted ++ [transaction.snapshot files]) := by
  have member := List.mem_of_getElem? found
  have ids := @revisionIds_set transactions index transaction
    { transaction with state := .validated } found rfl
  have named := sound.named transaction member
  obtain ⟨isDirectory, noRevision, notAccepted⟩ := sound.staged transaction member isCandidate
  have snapshotLocated : InCandidates root files (transaction.snapshot files) := by
    intro path
    have isPath : transaction.candidate ++ path =
        root ++ (Place.candidate transaction.revisionId path).path := by
      rw [named.ownCandidate]
      simp [Place.path]
    refine ⟨?_, noRevision path⟩
    change _ = files.lookup (transaction.candidate ++ path)
    rw [isPath]
    rfl
  constructor
  · rw [ids]
    exact sound.distinct
  · exact named_set sound.distinct sound.named found _
  · exact sound.placed
  · rw [ids]
    exact sound.known
  · intro other inSet otherCandidate
    obtain rfl | ⟨earlier, different⟩ := mem_set_cases sound.distinct found inSet
    · cases otherCandidate
    · obtain ⟨otherDirectory, otherRevision, otherNotAccepted⟩ :=
        sound.staged other earlier otherCandidate
      refine ⟨otherDirectory, otherRevision, ?_⟩
      intro entry inAccepted
      obtain old | isNew := List.mem_append.mp inAccepted
      · exact otherNotAccepted entry old
      · rw [List.mem_singleton.mp isNew]
        exact different.symm
  · intro other inSet settled
    obtain rfl | ⟨earlier, _⟩ := mem_set_cases sound.distinct found inSet
    · exact ⟨transaction.snapshot files, by simp, rfl⟩
    · obtain ⟨entry, old, isEntry⟩ := sound.settled other earlier settled
      exact ⟨entry, List.mem_append_left _ old, isEntry⟩
  · rw [List.map_append]
    apply List.Nodup.append sound.once (List.nodup_singleton _)
    rw [List.disjoint_singleton]
    intro inAccepted
    obtain ⟨entry, old, isEntry⟩ := List.mem_map.mp inAccepted
    exact notAccepted entry old isEntry
  · rw [ids]
    intro entry inAccepted
    obtain old | isNew := List.mem_append.mp inAccepted
    · exact sound.accounted entry old
    · rw [List.mem_singleton.mp isNew]
      refine ⟨List.mem_map_of_mem member, ?_, Or.inl snapshotLocated⟩
      rw [← (snapshotLocated []).1]
      exact isDirectory
  · intro node present
    obtain ⟨line, isLine, oneLine, entry, old, isNamed, inRevisions⟩ := sound.active node present
    exact ⟨line, isLine, oneLine, entry, List.mem_append_left _ old, isNamed, inRevisions⟩

end Advance

end Invariant

end SmartFecTunnel.Controller
