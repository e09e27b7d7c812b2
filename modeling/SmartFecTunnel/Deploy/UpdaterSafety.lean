import SmartFecTunnel.Deploy.Updater

/-!
Contract: what any number of updaters leave of the configuration.

The lock makes them take turns, so the candidate that a run installs is the one that it has had
checked, and the backup that it restores is what it has found.

Owns: the configuration in every state of every run of updaters, and what each of them has done
to it when it ends or is killed.

Does not own: a signal that reaches an updater, which gives the lock away, and a restoring that
fails.
-/

namespace SmartFecTunnel.Deploy.Updater

open SmartFecTunnel.Library

def Inside (run : Run) : Prop := run.stage.isInside = true

/-- Whether an update has been reported. -/
def Reported (said : List Message) : Prop := ∃ stamp, .updated stamp ∈ said

section Meaning

variable (str : IpNetwork → Text)

/-- One run of the script for the route makes the second file of the first. -/
def Made (found made : File) : Prop :=
  ∃ value ranges updated, found = .json value ∧
    StableRoute.main str value ranges = .ok updated ∧ made = .json updated

/-- And the service has accepted it. -/
def Ready (found : File) (seen : List Observation) (made : File) : Prop :=
  Made str found made ∧ .checked made true ∈ seen

/-- The first configuration, or what one run of the script makes of it. -/
def Kept (initial : File) (seen : List Observation) (config : File) : Prop :=
  config = initial ∨ Ready str initial seen config

/-- The update that a run has reported, or what it has found. -/
def AsReported (found : File) (seen : List Observation) (said : List Message) (config : File) :
    Prop :=
  (Reported said → Ready str found seen config) ∧ (¬ Reported said → config = found)

/-- What a run leaves.  One that is killed leaves one of the two, whatever it has reported. -/
def Result (found : File) (seen : List Observation) (said : List Message) (config : File) :
    Exit → Prop
  | .killed => config = found ∨ Ready str found seen config
  | _ => AsReported str found seen said config

/-- The configuration is what the run has found, and the run has not said otherwise. -/
def Untouched (found : File) (said : List Message) (config : File) : Prop :=
  config = found ∧ ¬ Reported said

/-- What a run counts on before its next command. -/
def Holds (found : File) (files : Files) (seen : List Observation) (said : List Message) :
    Stage → Prop
  | .lock => True
  | .test => Untouched found said files.config
  | .patch => Untouched found said files.config
  | .protect => Untouched found said files.config ∧ Made str found files.candidate
  | .check => Untouched found said files.config ∧ Made str found files.candidate
  | .compare => Untouched found said files.config ∧ Ready str found seen files.candidate
  | .backup => Untouched found said files.config ∧ Ready str found seen files.candidate
  | .install stamp =>
    Untouched found said files.config ∧ Ready str found seen files.candidate ∧
      Untouched found said (files.backups stamp)
  | .activate stamp =>
    Ready str found seen files.config ∧ Untouched found said (files.backups stamp)
  | .confirm stamp =>
    Ready str found seen files.config ∧ Untouched found said (files.backups stamp)
  | .restore stamp =>
    Ready str found seen files.config ∧ Untouched found said (files.backups stamp)
  | .reactivate => Untouched found said files.config
  | .removing (.ended _) => AsReported str found seen said files.config
  | .unlocking (.ended _) => AsReported str found seen said files.config
  -- only a signal makes the script go on after the trap
  | .removing _ => False
  | .unlocking _ => False
  | .ended _ => True

def Relies (initial : File) (run : Run) (resource : Files × List Observation) : Prop :=
  ∃ found, run.found = some found ∧ Kept str initial resource.2 found ∧
    Holds str found resource.1 resource.2 run.said run.stage

/-- A run that has had the lock is seen to end, and what it leaves is right. -/
def Accounted (seen : List Observation) (place : Nat) (run : Run) : Prop :=
  match run.stage with
  | .lock => run.found = none ∧ run.said = []
  | .ended exit => ∀ found, run.found = some found →
    ∃ config, .left place exit config ∈ seen ∧ Result str found seen run.said config exit
  | _ => True

/-- What is so in every state. -/
structure Orderly (initial : File) (host : Host) (seen : List Observation) : Prop where
  alone : ∀ (place other : Nat) (first second : Run), host.runs[place]? = some first →
    host.runs[other]? = some second → Inside first → Inside second → place = other
  kept : Kept str initial seen host.files.config
  left : ∀ place run exit found, host.runs[place]? = some run → run.stage = .ended exit →
    run.found = some found →
    ∃ config, .left place exit config ∈ seen ∧ Result str found seen run.said config exit

end Meaning

variable {str : IpNetwork → Text}

/-! ### Small facts -/

/-- A second run of the script forgets the first. -/
theorem Made.trans {first second third : File} (made : Made str first second)
    (again : Made str second third) : Made str first third := by
  obtain ⟨value, earlier, middle, isFirst, isMiddle, isSecond⟩ := made
  obtain ⟨origin, ranges, updated, same, isUpdated, isThird⟩ := again
  subst isSecond
  cases same
  rw [StableRoute.main_main str isMiddle] at isUpdated
  exact ⟨value, ranges, updated, isFirst, isUpdated, isThird⟩

theorem Ready.mono {found made : File} {seen : List Observation} (ready : Ready str found seen made)
    (more : List Observation) : Ready str found (seen ++ more) made :=
  ⟨ready.1, List.mem_append_left more ready.2⟩

theorem Kept.mono {initial config : File} {seen : List Observation}
    (kept : Kept str initial seen config) (more : List Observation) :
    Kept str initial (seen ++ more) config :=
  kept.imp id fun ready => ready.mono more

theorem AsReported.mono {found config : File} {said : List Message} {seen : List Observation}
    (reports : AsReported str found seen said config) (more : List Observation) :
    AsReported str found (seen ++ more) said config :=
  ⟨fun reported => (reports.1 reported).mono more, reports.2⟩

theorem Result.mono {found config : File} {said : List Message} {seen : List Observation}
    {exit : Exit} (result : Result str found seen said config exit) (more : List Observation) :
    Result str found (seen ++ more) said config exit := by
  cases exit with
  | killed => exact result.imp id fun ready => ready.mono more
  | success => exact AsReported.mono result more
  | failure => exact AsReported.mono result more

/-- The reports are right in whatever way the run ends. -/
theorem AsReported.result {found config : File} {said : List Message} {seen : List Observation}
    (reports : AsReported str found seen said config) (exit : Exit) :
    Result str found seen said config exit := by
  cases exit with
  | success => exact reports
  | failure => exact reports
  | killed =>
      by_cases reported : Reported said
      · exact .inr (reports.1 reported)
      · exact .inl (reports.2 reported)

theorem Untouched.reports {found config : File} {said : List Message}
    (untouched : Untouched found said config) (seen : List Observation) :
    AsReported str found seen said config :=
  ⟨fun reported => absurd reported untouched.2, fun _ => untouched.1⟩

/-- Any message but one leaves a run without a report. -/
theorem Untouched.say {found config : File} {said : List Message}
    (untouched : Untouched found said config) (message : Message)
    (other : ∀ stamp, .updated stamp ≠ message) :
    Untouched found (said ++ [message]) config := by
  refine ⟨untouched.1, fun ⟨stamp, reported⟩ => ?_⟩
  rcases List.mem_append.mp reported with before | now
  · exact untouched.2 ⟨stamp, before⟩
  · exact other stamp (List.mem_singleton.mp now)

theorem Accounted.mono {seen : List Observation} {place : Nat} {run : Run}
    (accounted : Accounted str seen place run) (more : List Observation) :
    Accounted str (seen ++ more) place run := by
  obtain ⟨stage, found, said⟩ := run
  cases stage with
  | lock => exact accounted
  | ended exit =>
      intro origin isFound
      obtain ⟨config, isLeft, result⟩ := accounted origin isFound
      exact ⟨config, List.mem_append_left more isLeft, result.mono more⟩
  | _ => trivial

/-- Inside, nothing is owed. -/
theorem accounted_inside (run : Run) (inside : Inside run) (seen : List Observation)
    (place : Nat) : Accounted str seen place run := by
  obtain ⟨stage, found, said⟩ := run
  cases stage with
  | lock => exact absurd inside Bool.false_ne_true
  | ended exit => exact absurd inside Bool.false_ne_true
  | _ => trivial

/-- What is made of a kept configuration could have been made of the first one. -/
theorem Kept.ready {initial found config : File} {seen : List Observation}
    (kept : Kept str initial seen found) (ready : Ready str found seen config) :
    Kept str initial seen config := by
  rcases kept with rfl | made
  · exact .inr ready
  · exact .inr ⟨made.1.trans ready.1, ready.2⟩

/-- What a run leaves that is killed before its next command. -/
theorem Holds.left {found : File} {files : Files} {seen : List Observation}
    {said : List Message} {stage : Stage} (holds : Holds str found files seen said stage)
    (inside : stage.isInside = true) :
    files.config = found ∨ Ready str found seen files.config := by
  cases stage with
  | lock => exact absurd inside Bool.false_ne_true
  | test => exact .inl holds.1
  | patch => exact .inl holds.1
  | protect => exact .inl holds.1.1
  | check => exact .inl holds.1.1
  | compare => exact .inl holds.1.1
  | backup => exact .inl holds.1.1
  | install stamp => exact .inl holds.1.1
  | activate stamp => exact .inr holds.1
  | confirm stamp => exact .inr holds.1
  | restore stamp => exact .inr holds.1
  | reactivate => exact .inl holds.1
  | removing rest =>
      cases rest with
      | ended exit => exact AsReported.result holds .killed
      | _ => exact holds.elim
  | unlocking rest =>
      cases rest with
      | ended exit => exact AsReported.result holds .killed
      | _ => exact holds.elim
  | ended exit => exact absurd inside Bool.false_ne_true

/-- Whatever a run inside is about to do, the configuration is kept. -/
theorem Relies.kept {initial : File} {run : Run} {files : Files} {seen : List Observation}
    (relies : Relies str initial run (files, seen)) (inside : Inside run) :
    Kept str initial seen files.config := by
  obtain ⟨found, _, kept, holds⟩ := relies
  rcases holds.left inside with same | ready
  · exact same ▸ kept
  · exact kept.ready ready

theorem patched_made {host : Host} {ranges : StableRoute.Ranges} {value : Value}
    (patched : host.patched str ranges = some value) :
    Made str host.files.config (.json value) := by
  unfold Host.patched at patched
  split at patched
  next origin isOrigin =>
    cases made : StableRoute.main str origin ranges with
    | error error =>
        rw [made] at patched
        cases patched
    | ok updated =>
        rw [made] at patched
        cases patched
        exact ⟨origin, ranges, _, isOrigin, made, rfl⟩
  next => cases patched

/-! ### One command -/

/-- What a command does inside: the run goes on, with what its next command counts on. -/
structure Goes (str : IpNetwork → Text) (found : File) (host next : Host) (place : Nat)
    (run after : Run) (seen emitted : List Observation) : Prop where
  runs : next.runs = host.runs.set place after
  sameFound : after.found = run.found
  holds : Holds str found next.files (seen ++ emitted) after.said after.stage
  locked : Inside after → next.locked = host.locked
  config : ¬ Inside after → next.files.config = host.files.config
  accounted : Accounted str (seen ++ emitted) place after

/-- A command that the run stays inside with. -/
theorem Goes.inside {found : File} {host changed : Host} {place : Nat} {run speaking : Run}
    {seen emitted : List Observation} {stage : Stage} (sameRuns : changed.runs = host.runs)
    (sameLock : changed.locked = host.locked) (sameFound : speaking.found = run.found)
    (holds : Holds str found changed.files (seen ++ emitted) speaking.said stage)
    (isInside : stage.isInside = true) :
    Goes str found host (changed.goTo place speaking stage) place run { speaking with stage }
      seen emitted where
  runs := by rw [Host.goTo, sameRuns]
  sameFound := sameFound
  holds := holds
  locked _ := sameLock
  config outside := absurd isInside outside
  accounted := accounted_inside { speaking with stage } isInside _ _

/-- And that nothing is seen of. -/
theorem Goes.silent {found : File} {host changed : Host} {place : Nat} {run speaking : Run}
    {seen : List Observation} {stage : Stage} (sameRuns : changed.runs = host.runs)
    (sameLock : changed.locked = host.locked) (sameFound : speaking.found = run.found)
    (holds : Holds str found changed.files seen speaking.said stage)
    (isInside : stage.isInside = true) :
    Goes str found host (changed.goTo place speaking stage) place run { speaking with stage }
      seen [] := by
  refine .inside sameRuns sameLock sameFound ?_ isInside
  rw [List.append_nil]
  exact holds

/-- The last command of the trap. -/
theorem Goes.finish {found : File} {host changed : Host} {place : Nat} {run : Run}
    {seen : List Observation} {exit : Exit} (sameRuns : changed.runs = host.runs)
    (sameFiles : changed.files = host.files) (isFound : run.found = some found)
    (reports : AsReported str found seen run.said host.files.config) :
    Goes str found host (changed.finish place run exit).1 place run
      { run with stage := .ended exit } seen (changed.finish place run exit).2 where
  runs := by rw [Host.finish, Host.goTo, sameRuns]
  sameFound := rfl
  holds := trivial
  locked inside := absurd inside Bool.false_ne_true
  config _ := congrArg Files.config sameFiles
  accounted := by
    intro origin isOrigin
    cases isFound.symm.trans isOrigin
    refine ⟨host.files.config, ?_, ?_⟩
    · rw [Host.finish, sameFiles]
      exact List.mem_append_right seen (List.mem_singleton_self _)
    · exact (reports.mono _).result exit

theorem command_goes {found : File} {host next : Host} {place : Nat} {run : Run}
    {outcome : Outcome} {seen emitted : List Observation}
    (stepped : host.command str place run outcome = some (next, emitted)) (inside : Inside run)
    (isFound : run.found = some found) (holds : Holds str found host.files seen run.said run.stage)
    (whole : .torn ∉ emitted) :
    ∃ after, Goes str found host next place run after seen emitted := by
  obtain ⟨stage, origin, said⟩ := run
  cases stage with
  | lock => exact absurd inside Bool.false_ne_true
  | test =>
      have untouched : Untouched found said host.files.config := holds
      unfold Host.command at stepped
      dsimp only at stepped
      split at stepped
      next =>
        cases stepped
        exact ⟨_, .silent rfl rfl rfl holds rfl⟩
      next =>
        cases stepped
        exact ⟨_, .silent rfl rfl rfl ((untouched.say .missing (by simp)).reports seen) rfl⟩
  | patch =>
      have untouched : Untouched found said host.files.config := holds
      unfold Host.command at stepped
      dsimp only at stepped
      split at stepped
      next =>
        split at stepped
        next value isPatched =>
          cases stepped
          have made := patched_made isPatched
          rw [untouched.1] at made
          exact ⟨_, .silent rfl rfl rfl ⟨holds, made⟩ rfl⟩
        next =>
          cases stepped
          exact ⟨_, .silent rfl rfl rfl (untouched.reports seen) rfl⟩
      next =>
        cases stepped
        exact ⟨_, .silent rfl rfl rfl (untouched.reports seen) rfl⟩
  | protect =>
      unfold Host.command at stepped
      dsimp only at stepped
      split at stepped
      next =>
        cases stepped
        exact ⟨_, .silent rfl rfl rfl holds rfl⟩
      next =>
        cases stepped
        exact ⟨_, .silent rfl rfl rfl (holds.1.reports seen) rfl⟩
  | check =>
      unfold Host.command at stepped
      dsimp only at stepped
      cases stepped
      split
      next accepts =>
        -- from here on the candidate is an accepted one
        refine ⟨_, .inside rfl rfl rfl ⟨holds.1, holds.2, ?_⟩ rfl⟩
        rw [accepts]
        exact List.mem_append_right seen (List.mem_singleton_self _)
      next => exact ⟨_, .inside rfl rfl rfl (holds.1.reports _) rfl⟩
  | compare =>
      unfold Host.command at stepped
      dsimp only at stepped
      split at stepped
      next =>
        cases stepped
        exact ⟨_, .silent rfl rfl rfl ((holds.1.say .unchanged (by simp)).reports seen) rfl⟩
      next =>
        cases stepped
        exact ⟨_, .silent rfl rfl rfl holds rfl⟩
  | backup =>
      unfold Host.command at stepped
      dsimp only at stepped
      split at stepped
      next =>
        cases stepped
        have copied : (host.withBackup outcome.stamp host.files.config).files.backups
            outcome.stamp = host.files.config := if_pos rfl
        refine ⟨_, .silent rfl rfl rfl ⟨holds.1, holds.2, ?_⟩ rfl⟩
        rw [copied]
        exact holds.1
      next =>
        cases stepped
        exact ⟨_, .silent rfl rfl rfl (holds.1.reports seen) rfl⟩
  | install stamp =>
      unfold Host.command at stepped
      dsimp only at stepped
      split at stepped
      next =>
        cases stepped
        exact ⟨_, .silent rfl rfl rfl holds.2 rfl⟩
      next =>
        cases stepped
        exact ⟨_, .silent rfl rfl rfl (holds.1.reports seen) rfl⟩
  | activate stamp =>
      unfold Host.command at stepped
      dsimp only at stepped
      split at stepped
      next =>
        cases stepped
        exact ⟨_, .silent rfl rfl rfl holds rfl⟩
      next =>
        cases stepped
        exact ⟨_, .silent rfl rfl rfl ⟨holds.1, holds.2.say (.restoring stamp) (by simp)⟩ rfl⟩
  | confirm stamp =>
      unfold Host.command at stepped
      dsimp only at stepped
      split at stepped
      next =>
        cases stepped
        have reported : Reported (said ++ [.updated stamp]) :=
          ⟨stamp, List.mem_append_right said (List.mem_singleton_self _)⟩
        exact ⟨_, .silent rfl rfl rfl ⟨fun _ => holds.1, fun not => absurd reported not⟩ rfl⟩
      next =>
        cases stepped
        exact ⟨_, .silent rfl rfl rfl ⟨holds.1, holds.2.say (.restoring stamp) (by simp)⟩ rfl⟩
  | restore stamp =>
      unfold Host.command at stepped
      dsimp only at stepped
      split at stepped
      next =>
        cases stepped
        exact ⟨_, .silent rfl rfl rfl holds.2 rfl⟩
      next =>
        cases stepped
        exact absurd (List.mem_singleton_self _) whole
  | reactivate =>
      have untouched : Untouched found said host.files.config := holds
      cases stepped
      exact ⟨_, .silent rfl rfl rfl (untouched.reports seen) rfl⟩
  | removing rest =>
      cases rest with
      | ended exit =>
          unfold Host.command at stepped
          dsimp only at stepped
          split at stepped
          next =>
            cases stepped
            exact ⟨_, .silent rfl rfl rfl holds rfl⟩
          next =>
            cases stepped
            exact ⟨_, .finish rfl rfl isFound holds⟩
      | _ => exact holds.elim
  | unlocking rest =>
      cases rest with
      | ended exit =>
          cases stepped
          exact ⟨_, .finish rfl rfl isFound holds⟩
      | _ => exact holds.elim
  | ended exit => exact absurd inside Bool.false_ne_true

/-- Outside, a command can only take the lock. -/
theorem command_outside {host next : Host} {place : Nat} {run : Run} {outcome : Outcome}
    {seen emitted : List Observation}
    (stepped : host.command str place run outcome = some (next, emitted))
    (outside : ¬ Inside run) (accounted : Accounted str seen place run) :
    emitted = [] ∧ next.files = host.files ∧
      ((∃ after, ¬ Inside after ∧ next.locked = host.locked ∧
          next.runs = host.runs.set place after ∧ Accounted str seen place after) ∨
        (host.locked = false ∧ next.locked = true ∧
          next.runs = host.runs.set place ⟨.test, some host.files.config, []⟩)) := by
  obtain ⟨stage, found, said⟩ := run
  cases stage with
  | lock =>
      obtain ⟨rfl, rfl⟩ : found = none ∧ said = [] := accounted
      unfold Host.command at stepped
      dsimp only at stepped
      split at stepped
      next =>
        cases stepped
        refine ⟨rfl, rfl, .inl ⟨_, ?_, rfl, rfl, ?_⟩⟩
        · exact Bool.false_ne_true
        · intro found isFound
          cases isFound
      next free =>
        cases stepped
        have isOpen : host.locked = false := by
          cases isLocked : host.locked with
          | false => rfl
          | true =>
              rw [isLocked] at free
              exact absurd rfl free
        exact ⟨rfl, rfl, .inr ⟨isOpen, rfl, rfl⟩⟩
  | ended exit => cases stepped
  | _ => exact absurd rfl outside

/-! ### One event -/

/-- The invariant: what the runs count on, besides what is so in every state. -/
structure Safe (str : IpNetwork → Text) (initial : File) (host : Host) (seen : List Observation) :
    Prop where
  guarded : Guarded Inside (Relies str initial) host.locked host.runs (host.files, seen)
  kept : Kept str initial seen host.files.config
  accounted : ∀ (place : Nat) (run : Run), host.runs[place]? = some run →
    Accounted str seen place run

theorem safe_start (initial : File) : Safe str initial (.start initial) [] where
  guarded := .of_outside fun _ member => absurd member List.not_mem_nil
  kept := .inl rfl
  accounted _ _ found := by cases found

/-- The run at a place changes. -/
theorem Safe.accounted_set {initial : File} {host : Host} {seen emitted : List Observation}
    {place : Nat} {after : Run} (safe : Safe str initial host seen)
    (isAfter : Accounted str (seen ++ emitted) place after) :
    ∀ (other : Nat) (run : Run), (host.runs.set place after)[other]? = some run →
      Accounted str (seen ++ emitted) other run := by
  intro other run found
  rw [List.getElem?_set] at found
  split at found
  next same =>
    split at found
    next =>
      cases found
      exact same ▸ isAfter
    next => cases found
  next => exact (safe.accounted other run found).mono emitted

/-- An event that changes no file, and that nothing is seen of. -/
theorem Safe.silent {initial : File} {host next : Host} {place : Nat} {after : Run}
    {seen : List Observation} (safe : Safe str initial host seen)
    (sameFiles : next.files = host.files) (isNext : next.runs = host.runs.set place after)
    (guarded : Guarded Inside (Relies str initial) next.locked next.runs (host.files, seen))
    (accounted : Accounted str seen place after) : Safe str initial next (seen ++ []) := by
  refine ⟨?_, ?_, ?_⟩
  · rw [List.append_nil, sameFiles]
    exact guarded
  · rw [List.append_nil, sameFiles]
    exact safe.kept
  · rw [isNext]
    exact safe.accounted_set (accounted.mono [])

theorem Safe.command {initial : File} {host next : Host} {place : Nat} {run : Run}
    {outcome : Outcome} {seen emitted : List Observation} (safe : Safe str initial host seen)
    (isRun : host.runs[place]? = some run)
    (stepped : host.command str place run outcome = some (next, emitted))
    (whole : .torn ∉ emitted) : Safe str initial next (seen ++ emitted) := by
  by_cases inside : Inside run
  · obtain ⟨found, isFound, kept, holds⟩ := safe.guarded.relies place run isRun inside
    obtain ⟨after, goes⟩ := command_goes stepped inside isFound holds whole
    have relies : Relies str initial after (next.files, seen ++ emitted) :=
      ⟨found, goes.sameFound.trans isFound, Kept.mono kept emitted, goes.holds⟩
    refine ⟨?_, ?_, ?_⟩
    · rw [goes.runs]
      by_cases stays : Inside after
      · rw [goes.locked stays]
        exact safe.guarded.work isRun inside relies
      · exact safe.guarded.leave isRun inside stays
    · by_cases stays : Inside after
      · exact relies.kept stays
      · rw [goes.config stays]
        exact safe.kept.mono emitted
    · rw [goes.runs]
      exact safe.accounted_set goes.accounted
  · obtain ⟨rfl, sameFiles, stays | enters⟩ :=
      command_outside stepped inside (safe.accounted place run isRun)
    · obtain ⟨after, outside, sameLock, isNext, accounted⟩ := stays
      refine safe.silent sameFiles isNext ?_ accounted
      rw [sameLock, isNext]
      exact safe.guarded.stay place outside
    · obtain ⟨isOpen, isLocked, isNext⟩ := enters
      refine safe.silent sameFiles isNext ?_ trivial
      rw [isLocked, isNext]
      have guarded := safe.guarded
      rw [isOpen] at guarded
      have untouched : Untouched host.files.config [] host.files.config :=
        ⟨rfl, fun ⟨_, reported⟩ => absurd reported List.not_mem_nil⟩
      exact guarded.enter place ⟨_, rfl, safe.kept, untouched⟩

/-- A killed run is outside. -/
theorem outside_stop (run : Run) : ¬ Inside (Host.stop run) := by
  obtain ⟨stage, found, said⟩ := run
  cases stage <;> exact Bool.false_ne_true

/-- A killed run is accounted for: what is seen of it is what it leaves. -/
theorem Safe.accounted_stop {initial : File} {host : Host} {place : Nat} {run : Run}
    {seen emitted : List Observation} (safe : Safe str initial host seen)
    (isRun : host.runs[place]? = some run)
    (isSeen : ∀ observation ∈ host.cut place run, observation ∈ emitted) :
    Accounted str (seen ++ emitted) place (Host.stop run) := by
  have accounted := safe.accounted place run isRun
  by_cases inside : Inside run
  · obtain ⟨found, isFound, _, holds⟩ := safe.guarded.relies place run isRun inside
    have left : Observation.left place .killed host.files.config ∈ emitted := by
      refine isSeen _ ?_
      have isCut : host.cut place run = [.left place .killed host.files.config] := if_pos inside
      rw [isCut]
      exact List.mem_singleton_self _
    have isStopped : Host.stop run = { run with stage := .ended .killed } := by
      obtain ⟨stage, origin, said⟩ := run
      cases stage with
      | ended exit => exact absurd inside Bool.false_ne_true
      | _ => rfl
    rw [isStopped]
    intro origin isOrigin
    cases isFound.symm.trans isOrigin
    have result : Result str found seen run.said host.files.config .killed := holds.left inside
    exact ⟨_, List.mem_append_right seen left, result.mono emitted⟩
  · obtain ⟨stage, origin, said⟩ := run
    cases stage with
    | lock =>
        intro found isFound
        cases accounted.1.symm.trans isFound
    | ended exit => exact accounted.mono emitted
    | _ => exact absurd rfl inside

theorem Safe.step {initial : File} {host next : Host} {event : Event}
    {seen emitted : List Observation} (safe : Safe str initial host seen)
    (stepped : host.step str event = some (next, emitted)) (whole : .torn ∉ emitted)
    (undisturbed : .interrupted ∉ emitted) : Safe str initial next (seen ++ emitted) := by
  cases event with
  | start =>
      cases stepped
      rw [List.append_nil]
      refine ⟨safe.guarded.join Bool.false_ne_true, safe.kept, fun place run found => ?_⟩
      rcases getElem?_snoc found with old | ⟨_, rfl⟩
      · exact safe.accounted place run old
      · exact ⟨rfl, rfl⟩
  | command place outcome =>
      obtain ⟨run, isRun, isStep⟩ := Option.bind_eq_some_iff.mp stepped
      exact safe.command isRun isStep whole
  | interrupt place =>
      obtain ⟨run, isRun, isStep⟩ := Option.bind_eq_some_iff.mp stepped
      have accounted := safe.accounted place run isRun
      unfold Host.interrupt at isStep
      obtain ⟨stage, origin, said⟩ := run
      cases stage with
      | lock =>
          cases isStep
          refine safe.silent rfl rfl (safe.guarded.stay place Bool.false_ne_true) ?_
          intro found isFound
          cases accounted.1.symm.trans isFound
      | ended exit => cases isStep
      | _ =>
          cases isStep
          exact absurd (List.mem_singleton_self _) undisturbed
  | kill place =>
      obtain ⟨run, isRun, isStep⟩ := Option.map_eq_some_iff.mp stepped
      cases isStep
      have accounted := safe.accounted_stop isRun fun _ isCut => isCut
      refine ⟨?_, safe.kept.mono _, safe.accounted_set accounted⟩
      by_cases inside : Inside run
      · exact safe.guarded.leave isRun inside (outside_stop run)
      · have unseen : host.cut place run = [] := if_neg inside
        rw [unseen, List.append_nil]
        exact safe.guarded.stay place (outside_stop run)
  | reboot =>
      cases stepped
      refine ⟨.of_outside fun run member => ?_, safe.kept.mono _, fun place run found => ?_⟩
      · obtain ⟨before, _, isStopped⟩ := List.mem_map.mp member
        exact isStopped ▸ outside_stop before
      · rw [List.getElem?_map] at found
        obtain ⟨before, isBefore, isStopped⟩ := Option.map_eq_some_iff.mp found
        rw [← isStopped]
        refine safe.accounted_stop isBefore fun observation isCut => ?_
        exact List.mem_flatMap.mpr
          ⟨(before, place), List.mem_zipIdx_iff_getElem?.mpr isBefore, isCut⟩

/-! ### Every run -/

/-- Any number of updaters on one machine, started, killed and cut off by restarts at any time,
with any failures of their commands: they take turns, and the configuration is the first one or
what a single run of the script makes of that, accepted by the service.  An updater that ends by
itself leaves what it has found, unless it has reported an update; one that is killed may have
installed its update without saying so.  This takes that no signal reaches an updater that has
the lock, and that no restoring fails. -/
theorem updater_orderly (str : IpNetwork → Text) (initial : File) {events : List Event}
    {host : Host} {seen : List Observation}
    (ran : run (Host.step str) (.start initial) events = some (host, seen))
    (whole : .torn ∉ seen) (undisturbed : .interrupted ∉ seen) :
    Orderly str initial host seen := by
  have safe := run_invariant ran
    (fun _ seen host => .torn ∉ seen → .interrupted ∉ seen → Safe str initial host seen)
    (fun _ _ => safe_start initial)
    (fun past event outputs state next emitted _ _ stepped holds isWhole isUndisturbed =>
      (holds (fun member => isWhole (List.mem_append_left _ member))
        (fun member => isUndisturbed (List.mem_append_left _ member))).step stepped
        (fun member => isWhole (List.mem_append_right _ member))
        fun member => isUndisturbed (List.mem_append_right _ member))
  have reached := safe whole undisturbed
  refine ⟨reached.guarded.alone, reached.kept, fun place run exit found isRun isEnd => ?_⟩
  have accounted := reached.accounted place run isRun
  rw [Accounted, isEnd] at accounted
  exact accounted found

/-- Three updaters: the first one updates an empty configuration while the second one finds the
lock taken, and the third one is killed in its turn. -/
def threeUpdaters : List Event :=
  let answer ok : Outcome := ⟨ok, ⟨[], []⟩, [], .absent⟩
  [.start, .start, .command 0 (answer true), .command 0 (answer true), .command 1 (answer true),
    .command 0 (answer true), .command 0 (answer true), .command 0 (answer true),
    .command 0 (answer false), .command 0 (answer true), .command 0 (answer true),
    .command 0 (answer true), .command 0 (answer true), .command 0 (answer true),
    .command 0 (answer true), .start, .command 2 (answer true), .kill 2]

theorem updater_orderly_three : ∃ value host seen,
    run (Host.step fun _ => []) (.start (.json (.object []))) threeUpdaters = some (host, seen) ∧
    host.runs.map Run.stage = [.ended .success, .ended .success, .ended .killed] ∧
    host.files.config = .json value ∧
    Orderly (fun _ => []) (.json (.object [])) host seen := by
  obtain ⟨networks, isNetworks⟩ := StableRoute.exists_subtractNetworks ⟨[], []⟩
  have routable : StableRoute.Routable (.object []) [] [] [] :=
    ⟨rfl, rfl, rfl, fun _ member => absurd member List.not_mem_nil⟩
  have isUpdated := StableRoute.main_eq (fun _ => []) routable isNetworks
  generalize StableRoute.withRules [] [] _ = value at isUpdated
  -- the run up to the script for the route, the script, and the rest
  let patching : Run := ⟨.patch, some (.json (.object [])), []⟩
  let before : Host := ⟨⟨.json (.object []), .absent, fun _ => .absent⟩, true,
    [patching, ⟨.ended .success, none, [.busy]⟩]⟩
  have patched : before.patched (fun _ => []) ⟨[], []⟩ = some value := by
    change (StableRoute.main (fun _ => []) (.object []) ⟨[], []⟩).toOption = some value
    rw [isUpdated]
    rfl
  have stepped : Host.step (fun _ => []) before (.command 0 ⟨true, ⟨[], []⟩, [], .absent⟩) =
      some ((before.withCandidate (.json value)).goTo 0 patching .protect, []) := by
    change Host.command (fun _ => []) before 0 patching ⟨true, ⟨[], []⟩, [], .absent⟩ = _
    rw [Host.command]
    dsimp only [patching]
    rw [if_pos rfl, patched]
  have first : run (Host.step fun _ => []) (.start (.json (.object []))) (threeUpdaters.take 5) =
      some (before, []) := rfl
  have ran := run_append (Host.step fun _ => []) (.start (.json (.object [])))
    (threeUpdaters.take 5 ++ [.command 0 ⟨true, ⟨[], []⟩, [], .absent⟩]) (threeUpdaters.drop 6)
  rw [run_snoc first stepped, Option.bind_some] at ran
  let seen : List Observation := [.checked (.json value) true, .left 0 .success (.json value),
    .left 2 .killed (.json value)]
  refine ⟨value, _, seen, ran, rfl, rfl, updater_orderly _ _ ran ?_ ?_⟩
  · intro member
    simp [seen] at member
  · intro member
    simp [seen] at member

end SmartFecTunnel.Deploy.Updater
