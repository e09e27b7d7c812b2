import SmartFecTunnel.Controller.Places

/-!
Contract: the paths that the controller makes of a name it was given.

`stage` joins the artifact name, and the name between a dot and `.tmp`, to the
candidate directory, and `rollback` joins the previous revision to the directory
of the revisions.  The joined texts are followed from any working directory.

Owns: that a name which `is_plain_file_name` accepts leads inside the directory,
however it is spelled.

Does not own: links below these directories.
-/

namespace SmartFecTunnel.Controller

open SmartFecTunnel.Library

def artifactPath (candidate artifactName : Text) : Text := joinText candidate artifactName

def temporaryPath (candidate artifactName : Text) : Text :=
  joinText candidate (temporaryName artifactName)

def revisionsPath (root : Text) : Text := joinText root revisionsName

def previousPath (root previous : Text) : Text := joinText (revisionsPath root) previous

section Paths

variable (working : List Text) (directory value : Text)

/-- The paths of `stage` and `rollback`, which start from a directory that has been followed. -/
theorem joinPath_artifactPath :
    joinPath working (artifactPath directory value) =
      joinPath (joinPath working directory) value :=
  joinPath_joinText working directory value

theorem joinPath_temporaryPath :
    joinPath working (temporaryPath directory value) =
      joinPath (joinPath working directory) (temporaryName value) :=
  joinPath_joinText working directory (temporaryName value)

theorem joinPath_previousPath :
    joinPath working (previousPath directory value) =
      joinPath (joinPath (joinPath working directory) revisionsName) value := by
  rw [previousPath, revisionsPath, joinPath_joinText, joinPath_joinText]

end Paths

section Names

variable {value : Text}

theorem joinPath_name_inside (plain : isPlainFileName value = true) (directory : List Text) :
    StrictlyInside directory (joinPath directory value) := by
  obtain ⟨name, isName⟩ := isPlainFileName_iff.mp plain
  exact @strictlyInside_of_normal value [name] isName (by simp) directory

/-- A name with a slash behind it becomes a directory with a file in it. -/
theorem joinPath_temporary_inside (plain : isPlainFileName value = true)
    (directory : List Text) :
    StrictlyInside directory (joinPath directory (temporaryName value)) := by
  obtain ⟨name, isName⟩ := isPlainFileName_iff.mp plain
  obtain ⟨names, notEmpty, isHidden⟩ :=
    @components_hidden value name ".tmp".toList isName (by decide) (by decide)
  exact strictlyInside_of_normal isHidden notEmpty directory

end Names

/-- Only a plain name is accepted as the previous revision. -/
theorem plain_of_begin {root : List Text} {previous : Text} {clock : Option Nat} {process : Nat}
    {before after : World Text} {transaction : RevisionTransaction}
    (begun : (RevisionTransaction.begin root (some previous) clock process).run before =
      (.ok transaction, after)) :
    isPlainFileName previous = true := by
  by_contra refused
  have isRefused : isPlainFileName previous = false := by simpa using refused
  unfold RevisionTransaction.begin at begun
  simp only [Option.any_some, isRefused, Bool.not_false, if_true] at begun
  cases begun

/-- The paths of `stage`, from a candidate directory given as a text, and of `rollback`, with a
previous revision that `begin` accepted. -/
theorem artifact_paths_inside (working : List Text) :
    (∀ candidate artifactName : Text, isPlainFileName artifactName = true →
      StrictlyInside (joinPath working candidate)
          (joinPath working (artifactPath candidate artifactName)) ∧
        StrictlyInside (joinPath working candidate)
          (joinPath working (temporaryPath candidate artifactName))) ∧
    ∀ (root previous : Text) (clock : Option Nat) (process : Nat) (before after : World Text)
      (transaction : RevisionTransaction),
      (RevisionTransaction.begin (joinPath working root) (some previous) clock process).run
        before = (.ok transaction, after) →
      StrictlyInside (joinPath working (revisionsPath root))
        (joinPath working (previousPath root previous)) := by
  constructor
  · intro candidate artifactName plain
    rw [joinPath_artifactPath, joinPath_temporaryPath]
    exact ⟨joinPath_name_inside plain _, joinPath_temporary_inside plain _⟩
  · intro root previous clock process before after transaction begun
    have plain := plain_of_begin begun
    rw [joinPath_previousPath, revisionsPath, joinPath_joinText]
    exact joinPath_name_inside plain _

/-- A name with a trailing dot, and a previous revision with a trailing slash. -/
theorem artifact_paths_inside_trailing :
    (StrictlyInside [['r'], ['c']]
        (joinPath [] (artifactPath ['/', 'r', '/', 'c'] ['a', '/', '.'])) ∧
      StrictlyInside [['r'], ['c']]
        (joinPath [] (temporaryPath ['/', 'r', '/', 'c'] ['a', '/', '.']))) ∧
    StrictlyInside [revisionsName] (joinPath [] (previousPath ['/'] ['o', 'l', 'd', '/'])) := by
  have isInside := artifact_paths_inside []
  constructor
  · exact isInside.1 ['/', 'r', '/', 'c'] ['a', '/', '.'] (by decide)
  · have succeeds : ((RevisionTransaction.begin (joinPath [] ['/']) (some ['o', 'l', 'd', '/'])
        (some 1) 1).run ⟨(∅ : FileSystem Text).insert [] .directory, []⟩).1.isOk = true := by
      decide +kernel
    rcases begun : (RevisionTransaction.begin (joinPath [] ['/']) (some ['o', 'l', 'd', '/'])
      (some 1) 1).run ⟨(∅ : FileSystem Text).insert [] .directory, []⟩
      with ⟨error | transaction, after⟩
    · rw [begun] at succeeds
      cases succeeds
    · exact isInside.2 ['/'] ['o', 'l', 'd', '/'] (some 1) 1 _ after transaction begun

end SmartFecTunnel.Controller
