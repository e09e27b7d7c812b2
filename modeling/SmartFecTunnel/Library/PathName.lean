import SmartFecTunnel.Library.Text

/-!
Contract: texts that name files, read as Rust's `Path` reads them on Unix.

Owns: the components of a path, where a path leads from a directory, and what
the text of a plain name, a path of one name, can be.

Does not own: what is stored under a name.
-/

namespace SmartFecTunnel.Library

inductive Component where
  | rootDir
  | curDir
  | parentDir
  | normal (name : Text)
deriving DecidableEq, Repr

/-- The component of one segment between slashes.  Empty segments and single dots are
skipped. -/
def component? (segment : Text) : Option Component :=
  if segment = [] ∨ segment = ['.'] then none
  else if segment = ['.', '.'] then some .parentDir
  else some (.normal segment)

/-- `Path::components`: a leading slash and a leading dot have a component of their own. -/
def components (text : Text) : List Component :=
  (if text.head? = some '/' then [.rootDir]
    else if (text.splitOn '/').head? = some ['.'] then [.curDir] else []) ++
    (text.splitOn '/').filterMap component?

/-- `Path::join`, down to the directory it leads to. -/
def joinPath (path : List Text) (text : Text) : List Text :=
  (components text).foldl
    (fun path => fun
      | .rootDir => []
      | .curDir => path
      | .parentDir => path.dropLast
      | .normal name => path ++ [name])
    path

/-- `Path::join`: an absolute path replaces the base, and another one is set behind a slash. -/
def joinText (base text : Text) : Text :=
  if text.head? = some '/' then text
  else if base ≠ [] ∧ base.getLast? ≠ some '/' then base ++ '/' :: text
  else base ++ text

/-- A path leads to names below a directory, at least one of them. -/
def StrictlyInside (directory path : List Text) : Prop :=
  ∃ names, names ≠ [] ∧ (∀ name ∈ names, component? name = some (.normal name)) ∧
    path = directory ++ names

theorem foldl_joinPath_normal (path names : List Text) :
    (names.map Component.normal).foldl
      (fun path => fun
        | .rootDir => []
        | .curDir => path
        | .parentDir => path.dropLast
        | .normal name => path ++ [name])
      path = path ++ names := by
  induction names generalizing path with
  | nil => simp
  | cons name names inductionHypothesis => simp [inductionHypothesis]

/-- A path of names leads straight down. -/
theorem joinPath_of_normal {text : Text} {names : List Text}
    (isNormal : components text = names.map .normal) (path : List Text) :
    joinPath path text = path ++ names := by
  rw [joinPath, isNormal]
  exact foldl_joinPath_normal path names

/-! ### Segments -/

theorem head?_splitOn_ne_nil {text : Text} (notEmpty : text ≠ []) (noSlash : text.head? ≠ some '/') :
    (text.splitOn '/').head? ≠ some [] := by
  cases text with
  | nil => exact absurd rfl notEmpty
  | cons char rest =>
      have notSlash : char ≠ '/' := by
        rintro rfl
        exact noSlash rfl
      rw [List.splitOn_cons_eq_if_modifyHead, if_neg (by simpa using notSlash)]
      cases rest.splitOn '/' with
      | nil => simp
      | cons segment segments => simp

/-- A tail without a slash extends the last segment. -/
theorem splitOn_append_of_notMem (text : Text) {tail : Text} (noSlash : '/' ∉ tail) :
    ∃ segments last, text.splitOn '/' = segments ++ [last] ∧
      (text ++ tail).splitOn '/' = segments ++ [last ++ tail] := by
  induction text with
  | nil => exact ⟨[], [], by simp, by simp [List.splitOn_eq_singleton noSlash]⟩
  | cons char text inductionHypothesis =>
      obtain ⟨segments, last, isText, isLonger⟩ := inductionHypothesis
      by_cases isSlash : char = '/'
      · exact ⟨[] :: segments, last, by simp [List.splitOn_cons_eq_if_modifyHead, isSlash, isText],
          by simp [List.splitOn_cons_eq_if_modifyHead, isSlash, isLonger]⟩
      · cases segments with
        | nil =>
            exact ⟨[], char :: last,
              by simp [List.splitOn_cons_eq_if_modifyHead, isSlash, isText],
              by simp [List.splitOn_cons_eq_if_modifyHead, isSlash, isLonger]⟩
        | cons segment segments =>
            exact ⟨(char :: segment) :: segments, last,
              by simp [List.splitOn_cons_eq_if_modifyHead, isSlash, isText],
              by simp [List.splitOn_cons_eq_if_modifyHead, isSlash, isLonger]⟩

theorem mem_splitOn_of_mem {text : Text} {char : Char} (member : char ∈ text)
    (notSlash : char ≠ '/') : ∃ segment ∈ text.splitOn '/', char ∈ segment := by
  induction text with
  | nil => cases member
  | cons head text inductionHypothesis =>
      rw [List.splitOn_cons_eq_if_modifyHead]
      by_cases isSlash : head = '/'
      · have inText : char ∈ text := by
          cases member with
          | head => exact absurd isSlash notSlash
          | tail _ inText => exact inText
        obtain ⟨segment, inSegments, inSegment⟩ := inductionHypothesis inText
        exact ⟨segment, by simp [isSlash, inSegments], inSegment⟩
      · simp only [beq_iff_eq, isSlash, if_false]
        cases isSplit : text.splitOn '/' with
        | nil => exact absurd isSplit (List.splitOn_ne_nil '/' text)
        | cons first rest =>
            rw [List.modifyHead_cons]
            cases member with
            | head => exact ⟨char :: first, List.mem_cons_self, List.mem_cons_self⟩
            | tail _ inText =>
                obtain ⟨segment, inSegments, inSegment⟩ := inductionHypothesis inText
                rw [isSplit] at inSegments
                cases inSegments with
                | head => exact ⟨head :: first, List.mem_cons_self, List.mem_cons_of_mem _ inSegment⟩
                | tail _ inRest => exact ⟨segment, List.mem_cons_of_mem _ inRest, inSegment⟩

theorem component?_eq_none_iff {segment : Text} :
    component? segment = none ↔ segment = [] ∨ segment = ['.'] := by
  unfold component?
  split
  · simp_all
  · split <;> simp_all

theorem component?_eq_normal_iff {segment name : Text} :
    component? segment = some (.normal name) ↔
      segment = name ∧ name ≠ [] ∧ name ≠ ['.'] ∧ name ≠ ['.', '.'] := by
  unfold component?
  split
  · constructor
    · intro impossible
      cases impossible
    · rintro ⟨rfl, notEmpty, notDot, _⟩
      simp_all
  · split
    · constructor
      · intro impossible
        cases impossible
      · rintro ⟨rfl, _, _, notDots⟩
        simp_all
    · constructor
      · intro isName
        cases isName
        simp_all
      · rintro ⟨rfl, _⟩
        rfl

/-! ### Joined texts -/

/-- Only names and steps up count behind the start. -/
theorem joinPath_eq (path : List Text) (text : Text) :
    joinPath path text = ((text.splitOn '/').filterMap component?).foldl
      (fun path => fun
        | .rootDir => []
        | .curDir => path
        | .parentDir => path.dropLast
        | .normal name => path ++ [name])
      (if text.head? = some '/' then [] else path) := by
  unfold joinPath components
  rw [List.foldl_append]
  split
  · rfl
  · split <;> rfl

/-- A relative text behind a base: the slash between them belongs to neither. -/
theorem filterMap_splitOn_joinText {base text : Text} (relative : text.head? ≠ some '/') :
    ((joinText base text).splitOn '/').filterMap component? =
      (base.splitOn '/').filterMap component? ++ (text.splitOn '/').filterMap component? := by
  rw [joinText, if_neg relative]
  split
  next => rw [List.splitOn_append_cons_self, List.filterMap_append]
  next closed =>
    rcases List.eq_nil_or_concat base with rfl | ⟨front, last, rfl⟩
    · rfl
    · obtain rfl : last = '/' := by simpa using closed
      -- the base ends with an empty segment
      have empty : (front ++ ['/']).splitOn '/' = front.splitOn '/' ++ [[]] := by
        rw [List.splitOn_append_cons_self, List.splitOn_nil]
      rw [List.concat_eq_append, empty, List.append_assoc, List.singleton_append,
        List.splitOn_append_cons_self, List.filterMap_append, List.filterMap_append]
      simp [component?]

theorem head?_joinText {base text : Text} (relative : text.head? ≠ some '/') :
    (joinText base text).head? = some '/' ↔ base.head? = some '/' := by
  rw [joinText, if_neg relative]
  cases base with
  | nil => simpa using relative
  | cons char base => split <;> simp

/-- To join texts is to follow one path behind the other. -/
theorem joinPath_joinText (path : List Text) (base text : Text) :
    joinPath path (joinText base text) = joinPath (joinPath path base) text := by
  by_cases rooted : text.head? = some '/'
  · rw [joinText, if_pos rooted]
    simp only [joinPath_eq, rooted, if_true]
  · simp only [joinPath_eq, filterMap_splitOn_joinText rooted, head?_joinText rooted,
      List.foldl_append, rooted, if_false]

theorem component?_of_components {text : Text} {names : List Text}
    (isNormal : components text = names.map .normal) {name : Text} (member : name ∈ names) :
    component? name = some (.normal name) := by
  have isComponent : Component.normal name ∈ components text := by
    rw [isNormal]
    exact List.mem_map_of_mem member
  rcases List.mem_append.mp isComponent with leading | ofSegment
  · split at leading
    · simp at leading
    · split at leading <;> simp at leading
  · obtain ⟨segment, _, isName⟩ := List.mem_filterMap.mp ofSegment
    have same := (component?_eq_normal_iff.mp isName).1
    rw [same] at isName
    exact isName

/-- A path of names leads inside. -/
theorem strictlyInside_of_normal {text : Text} {names : List Text}
    (isNormal : components text = names.map .normal) (notEmpty : names ≠ [])
    (directory : List Text) : StrictlyInside directory (joinPath directory text) :=
  ⟨names, notEmpty, fun _ member => component?_of_components isNormal member,
    joinPath_of_normal isNormal directory⟩

/-! ### Plain names -/

/-- A name without slashes that is not a run of at most two dots is a path of its own. -/
theorem components_of_name {name : Text} (noSlash : '/' ∉ name) (notEmpty : name ≠ [])
    (notDot : name ≠ ['.']) (notDots : name ≠ ['.', '.']) : components name = [.normal name] := by
  have noRoot : name.head? ≠ some '/' := by
    intro isHead
    exact noSlash (List.mem_of_mem_head? isHead)
  simp [components, List.splitOn_eq_singleton noSlash, noRoot, component?, notEmpty, notDot, notDots]

/-- The segments of a plain name: the name comes first, then nothing that counts. -/
theorem segments_of_plain {text name : Text} (plain : components text = [.normal name]) :
    name ≠ [] ∧ name ≠ ['.'] ∧
      ∃ rest, text.splitOn '/' = name :: rest ∧ ∀ segment ∈ rest, segment = [] ∨ segment = ['.'] := by
  have notEmpty : text ≠ [] := by
    rintro rfl
    simp [components, component?] at plain
  unfold components at plain
  by_cases rooted : text.head? = some '/'
  · simp [rooted] at plain
  · have firstSegment := head?_splitOn_ne_nil notEmpty rooted
    cases isSplit : text.splitOn '/' with
    | nil => exact absurd isSplit (List.splitOn_ne_nil '/' text)
    | cons first rest =>
        rw [isSplit] at firstSegment plain
        have isNamed : first ≠ [] := by
          intro isEmpty
          exact firstSegment (by rw [isEmpty]; rfl)
        by_cases dotted : first = ['.']
        · simp [rooted, dotted] at plain
        · simp only [rooted, List.head?_cons, Option.some.injEq, dotted, if_false,
            List.nil_append] at plain
          cases isComponent : component? first with
          | none =>
              obtain isEmpty | isDot := component?_eq_none_iff.mp isComponent
              · exact absurd isEmpty isNamed
              · exact absurd isDot dotted
          | some component =>
              rw [List.filterMap_cons_some isComponent, List.cons.injEq] at plain
              rw [plain.1] at isComponent
              obtain ⟨isName, nameNotEmpty, nameNotDot, _⟩ :=
                component?_eq_normal_iff.mp isComponent
              refine ⟨nameNotEmpty, nameNotDot, rest, by rw [isName], ?_⟩
              intro segment member
              exact component?_eq_none_iff.mp (List.filterMap_eq_nil_iff.mp plain.2 segment member)

theorem component?_of_long {segment : Text} (long : 3 ≤ segment.length) :
    component? segment = some (.normal segment) := by
  apply component?_eq_normal_iff.mpr
  refine ⟨rfl, ?_, ?_, ?_⟩
  all_goals
    rintro rfl
    simp at long

/-- A dot before a plain name and a tail after it: the result is a path of names. -/
theorem components_hidden {text name tail : Text} (plain : components text = [.normal name])
    (noSlash : '/' ∉ tail) (long : 3 ≤ tail.length) :
    ∃ names, names ≠ [] ∧ components ('.' :: (text ++ tail)) = names.map .normal := by
  obtain ⟨notEmpty, notDot, rest, isSplit, trivialRest⟩ := segments_of_plain plain
  obtain ⟨segments, last, isText, isLonger⟩ := splitOn_append_of_notMem text noSlash
  rw [isSplit] at isText
  have hiddenSplit : ('.' :: (text ++ tail)).splitOn '/' =
      (segments ++ [last ++ tail]).modifyHead (List.cons '.') := by
    rw [List.splitOn_cons_eq_if_modifyHead, isLonger]
    simp
  have lastNormal : component? (last ++ tail) = some (.normal (last ++ tail)) := by
    apply component?_of_long
    rw [List.length_append]
    omega
  cases segments with
  | nil =>
      have onlyNormal : component? ('.' :: (last ++ tail)) =
          some (.normal ('.' :: (last ++ tail))) := by
        apply component?_of_long
        rw [List.length_cons, List.length_append]
        omega
      refine ⟨['.' :: (last ++ tail)], by simp, ?_⟩
      have notDotted : last ++ tail ≠ [] := by
        intro isEmpty
        rw [isEmpty] at lastNormal
        cases lastNormal
      simp [components, hiddenSplit, onlyNormal, notDotted]
  | cons first more =>
      -- the name is the first segment, and the segments between it and the last do not count
      rw [List.cons_append, List.cons.injEq] at isText
      obtain ⟨rfl, rfl⟩ := isText
      have firstNormal : component? ('.' :: name) = some (.normal ('.' :: name)) :=
        component?_eq_normal_iff.mpr
          ⟨rfl, by simp, by simpa using notEmpty, by simpa using notDot⟩
      have skipped : more.filterMap component? = [] := by
        rw [List.filterMap_eq_nil_iff]
        intro segment member
        exact component?_eq_none_iff.mpr (trivialRest segment (by simp [member]))
      refine ⟨['.' :: name, last ++ tail], by simp, ?_⟩
      simp [components, hiddenSplit, firstNormal, lastNormal, skipped, notEmpty]

/-- What a plain name is made of. -/
theorem mem_of_plain {text name : Text} (plain : components text = [.normal name]) {char : Char}
    (member : char ∈ text) (notSlash : char ≠ '/') (notDot : char ≠ '.') : char ∈ name := by
  obtain ⟨_, _, rest, isSplit, trivialRest⟩ := segments_of_plain plain
  obtain ⟨segment, inSegments, inSegment⟩ := mem_splitOn_of_mem member notSlash
  rw [isSplit] at inSegments
  cases inSegments with
  | head => exact inSegment
  | tail _ inRest =>
      obtain rfl | rfl := trivialRest segment inRest
      · cases inSegment
      · exact absurd (List.mem_singleton.mp inSegment) notDot

end SmartFecTunnel.Library
