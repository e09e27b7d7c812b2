import SmartFecTunnel.Library.Guarded
import SmartFecTunnel.Library.Run
import SmartFecTunnel.Deploy.StableRoute

/-!
Contract: the updater of the stable Google route
(`smart-fec-update-google-route` in `deploy/install-google-route-updater.sh`).

A timer and a person may start the updater at any time, so several runs of it share the
configuration, the candidate beside it and the lock.  Every command that touches a file, the lock
or the service is an event; the commands of different runs come in any order.  What a run prints
it prints with the command before.

The answer to a command is given by the event.  `cmp` compares the bytes, which are not
modelled: what it says is given too.

A signal runs the trap and then the script goes on, as the trap does not exit.  A run that is
killed in the middle of a command is one whose command fails before.

Owns: the commands of a run, the trap, and runs that are killed or cut off by a restart of the
machine.

Does not own: the service, and who else writes the configuration.
-/

namespace SmartFecTunnel.Deploy.Updater

open SmartFecTunnel.Library

/-- What a file holds: a value, or something that `json` does not read. -/
inductive File where
  | absent
  | broken
  | json (value : Value)

/-- `[ -f ]`. -/
def File.isFile : File → Bool
  | .absent => false
  | _ => true

/-- The copy of the configuration, with the time in its name. -/
def backupName (stamp : Text) : Text :=
  "/root/sing-box-google-auto-backup-".toList ++ stamp ++ ".json".toList

/-- What a run prints. -/
inductive Message where
  | busy
  | missing
  | unchanged
  | restoring (stamp : Text)
  | updated (stamp : Text)

def Message.text : Message → Text
  | .busy => "Google route update is already running".toList
  | .missing => "Missing /etc/sing-box/config.json".toList
  | .unchanged => "Google service ranges unchanged".toList
  | .restoring stamp => "Activation failed; restoring ".toList ++ backupName stamp
  | .updated stamp => "Google service routes updated. Backup: ".toList ++ backupName stamp

/-- How a run ends: by itself, with 0 or with another code, or killed. -/
inductive Exit where
  | success
  | failure
  | killed

/-- The next command of a run.  Those of the trap name what comes after it. -/
inductive Stage where
  | lock
  | test
  | patch
  | protect
  | check
  | compare
  | backup
  | install (stamp : Text)
  | activate (stamp : Text)
  | confirm (stamp : Text)
  | restore (stamp : Text)
  | reactivate
  | removing (rest : Stage)
  | unlocking (rest : Stage)
  | ended (exit : Exit)

/-- Between taking the lock and giving it back. -/
def Stage.isInside : Stage → Bool
  | .lock => false
  | .ended _ => false
  | _ => true

/-- Whether the trap is the last thing that a run does. -/
def Stage.isExiting : Stage → Bool
  | .removing rest => rest.isExiting
  | .unlocking rest => rest.isExiting
  | .ended _ => true
  | _ => false

/-- `found` is no variable of the script: it is what the configuration held when the run took the
lock.  `said` is what the run has printed. -/
structure Run where
  stage : Stage
  found : Option File
  said : List Message

def Run.say (run : Run) (message : Message) : Run := { run with said := run.said ++ [message] }

structure Files where
  config : File
  candidate : File
  backups : Text → File

structure Host where
  files : Files
  locked : Bool
  runs : List Run

/-- Before the first run. -/
def Host.start (config : File) : Host := ⟨⟨config, .absent, fun _ => .absent⟩, false, []⟩

/-- The answer to a command: whether it succeeds, what it downloads, the time, and what the file
that it writes holds when it fails. -/
structure Outcome where
  ok : Bool
  ranges : StableRoute.Ranges
  stamp : Text
  left : File

inductive Event where
  | start
  | command (place : Nat) (outcome : Outcome)
  | interrupt (place : Nat)
  | kill (place : Nat)
  | reboot

/-- `left` is a run that ends after it has taken the lock, with what the configuration then holds.
`torn` is a restoring that fails. -/
inductive Observation where
  | checked (candidate : File) (answer : Bool)
  | left (place : Nat) (exit : Exit) (config : File)
  | torn
  | interrupted

namespace Host

/-- A run goes on to its next command. -/
def goTo (host : Host) (place : Nat) (run : Run) (stage : Stage) : Host :=
  { host with runs := host.runs.set place { run with stage } }

def withConfig (host : Host) (config : File) : Host :=
  { host with files := { host.files with config } }

def withCandidate (host : Host) (candidate : File) : Host :=
  { host with files := { host.files with candidate } }

def withBackup (host : Host) (stamp : Text) (backup : File) : Host :=
  { host with
    files := { host.files with
      backups := fun other => if other = stamp then backup else host.files.backups other } }

/-- A run that has had the lock ends. -/
def finish (host : Host) (place : Nat) (run : Run) (exit : Exit) : Host × List Observation :=
  (host.goTo place run (.ended exit), [.left place exit host.files.config])

/-- What comes after the trap. -/
def resume (host : Host) (place : Nat) (run : Run) : Stage → Host × List Observation
  | .ended exit => host.finish place run exit
  | rest => (host.goTo place run rest, [])

variable (str : IpNetwork → Text)

/-- What the script for the route makes of the configuration. -/
def patched (host : Host) (ranges : StableRoute.Ranges) : Option Value :=
  match host.files.config with
  | .json value => (StableRoute.main str value ranges).toOption
  | _ => none

/-- The next command of the run at a place. -/
def command (host : Host) (place : Nat) (run : Run) (outcome : Outcome) :
    Option (Host × List Observation) :=
  match run.stage with
  | .lock =>
    if host.locked || !outcome.ok then
      some (host.goTo place (run.say .busy) (.ended .success), [])
    else
      some (({ host with locked := true } : Host).goTo place
        { run with found := some host.files.config } .test, [])
  | .test =>
    if host.files.config.isFile then some (host.goTo place run .patch, [])
    else some (host.goTo place (run.say .missing) (.removing (.ended .failure)), [])
  | .patch =>
    if outcome.ok then
      match host.patched str outcome.ranges with
      | some value => some ((host.withCandidate (.json value)).goTo place run .protect, [])
      | none => some (host.goTo place run (.removing (.ended .failure)), [])
    else
      some ((host.withCandidate outcome.left).goTo place run (.removing (.ended .failure)), [])
  | .protect =>
    if outcome.ok && host.files.candidate.isFile then some (host.goTo place run .check, [])
    else some (host.goTo place run (.removing (.ended .failure)), [])
  | .check =>
    let answer := outcome.ok && host.files.candidate.isFile
    some (host.goTo place run (if answer then .compare else .removing (.ended .failure)),
      [.checked host.files.candidate answer])
  | .compare =>
    -- a comparison that fails counts as a difference
    if outcome.ok && host.files.config.isFile && host.files.candidate.isFile then
      some (host.goTo place (run.say .unchanged) (.removing (.ended .success)), [])
    else some (host.goTo place run .backup, [])
  | .backup =>
    if outcome.ok && host.files.config.isFile then
      some ((host.withBackup outcome.stamp host.files.config).goTo place run
        (.install outcome.stamp), [])
    else
      some ((host.withBackup outcome.stamp outcome.left).goTo place run
        (.removing (.ended .failure)), [])
  | .install stamp =>
    if outcome.ok && host.files.candidate.isFile then
      some (((host.withConfig host.files.candidate).withCandidate .absent).goTo place run
        (.activate stamp), [])
    else some (host.goTo place run (.removing (.ended .failure)), [])
  | .activate stamp =>
    if outcome.ok then some (host.goTo place run (.confirm stamp), [])
    else some (host.goTo place (run.say (.restoring stamp)) (.restore stamp), [])
  | .confirm stamp =>
    if outcome.ok then
      some (host.goTo place (run.say (.updated stamp)) (.removing (.ended .success)), [])
    else some (host.goTo place (run.say (.restoring stamp)) (.restore stamp), [])
  | .restore stamp =>
    if outcome.ok && (host.files.backups stamp).isFile then
      some ((host.withConfig (host.files.backups stamp)).goTo place run .reactivate, [])
    else
      some ((host.withConfig outcome.left).goTo place run (.removing (.ended .failure)), [.torn])
  | .reactivate => some (host.goTo place run (.removing (.ended .failure)), [])
  | .removing rest =>
    if outcome.ok then
      some ((host.withCandidate .absent).goTo place run (.unlocking rest), [])
    -- `set -e` ends the script here; the trap for the end runs once, and the lock stays
    else if rest.isExiting then some (host.finish place run .failure)
    else some (host.goTo place run (.removing (.ended .failure)), [])
  | .unlocking rest =>
    some (({ host with locked := host.locked && !outcome.ok } : Host).resume place run rest)
  | .ended _ => none

/-- `INT` or `TERM`: before the trap is set the run is over. -/
def interrupt (host : Host) (place : Nat) (run : Run) : Option (Host × List Observation) :=
  match run.stage with
  | .lock => some (host.goTo place run (.ended .killed), [])
  | .ended _ => none
  | stage => some (host.goTo place run (.removing stage), [.interrupted])

/-- A run that has not ended is killed. -/
def stop (run : Run) : Run :=
  match run.stage with
  | .ended _ => run
  | _ => { run with stage := .ended .killed }

/-- What is seen of a run that is killed. -/
def cut (host : Host) (place : Nat) (run : Run) : List Observation :=
  if run.stage.isInside then [.left place .killed host.files.config] else []

def step (host : Host) : Event → Option (Host × List Observation)
  | .start => some ({ host with runs := host.runs ++ [⟨.lock, none, []⟩] }, [])
  | .command place outcome =>
    host.runs[place]?.bind fun run => host.command str place run outcome
  | .interrupt place => host.runs[place]?.bind fun run => host.interrupt place run
  | .kill place =>
    host.runs[place]?.map fun run =>
      ({ host with runs := host.runs.set place (stop run) }, host.cut place run)
  -- the lock is in memory, the candidate is not
  | .reboot =>
    some ({ host with locked := false, runs := host.runs.map stop },
      host.runs.zipIdx.flatMap fun entry => host.cut entry.2 entry.1)

end Host

end SmartFecTunnel.Deploy.Updater
