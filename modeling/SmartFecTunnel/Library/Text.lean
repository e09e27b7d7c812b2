import Mathlib.Tactic.IntervalCases
import Mathlib.Tactic.Ring
import SmartFecTunnel.Library.BigEndian

/-!
Contract: the operations on strings that text parsers use, with the behaviour of
Rust's `str`.

A string is the list of its characters.

Owns:
- white space, lines, trimming, words, unsigned decimal numbers and the UTF-8 bytes
  of a string;
- that written lines, pairs of words and decimal digits are read back.

Does not own: any grammar.
-/

namespace SmartFecTunnel.Library

abbrev Text := List Char

-- Membership tests on names ask for it.
instance : LawfulBEq Text := inferInstance

/-- The characters with the Unicode property `White_Space`. -/
def isWhitespace (char : Char) : Bool :=
  let code := char.toNat
  (9 ≤ code ∧ code ≤ 13) ∨ code = 0x20 ∨ code = 0x85 ∨ code = 0xA0 ∨ code = 0x1680 ∨
    (0x2000 ≤ code ∧ code ≤ 0x200A) ∨ code = 0x2028 ∨ code = 0x2029 ∨ code = 0x202F ∨
    code = 0x205F ∨ code = 0x3000

/-- `str::trim`. -/
def trim (text : Text) : Text :=
  ((text.dropWhile isWhitespace).reverse.dropWhile isWhitespace).reverse

/-- A line without the carriage return in front of its line feed. -/
def withoutCarriageReturn (line : Text) : Text :=
  if line.getLast? = some '\r' then line.dropLast else line

/-- The lines of `rest`, of which the first begins with `line`. -/
def linesFrom : (line rest : Text) → List Text
  | line, [] => if line.isEmpty then [] else [line]
  | line, char :: rest =>
    if char = '\n' then withoutCarriageReturn line :: linesFrom [] rest
    else linesFrom (line ++ [char]) rest

/-- `str::lines`: a last line needs no line feed. -/
def lines (text : Text) : List Text := linesFrom [] text

/-- The words of `rest`, of which the first begins with `word`. -/
def wordsFrom : (word rest : Text) → List Text
  | word, [] => if word.isEmpty then [] else [word]
  | word, char :: rest =>
    if isWhitespace char then
      if word.isEmpty then wordsFrom [] rest else word :: wordsFrom [] rest
    else wordsFrom (word ++ [char]) rest

/-- `str::split_whitespace`. -/
def splitWhitespace (text : Text) : List Text := wordsFrom [] text

/-- The value of an ASCII digit. -/
def digit? (char : Char) : Option Nat :=
  if 48 ≤ char.toNat ∧ char.toNat ≤ 57 then some (char.toNat - 48) else none

/-- The value of decimal digits, most significant first. -/
def decimal? (digits : Text) : Option Nat :=
  digits.foldlM (fun value char => (digit? char).map fun digit => value * 10 + digit) 0

/-- `str::parse::<u64>`: a plus sign is allowed, an empty number is not. -/
def parseU64 (text : Text) : Option Nat :=
  let digits := if text.head? = some '+' then text.tail else text
  if digits.isEmpty then none else (decimal? digits).filter fun value => value < 2 ^ 64

/-- The UTF-8 bytes of a string. -/
def utf8 (text : Text) : Bytes := text.flatMap String.utf8EncodeChar

/-! ### Reading what was written -/

theorem linesFrom_append {line : Text} (plain : '\n' ∉ line) (before rest : Text) :
    linesFrom before (line ++ '\n' :: rest) =
      withoutCarriageReturn (before ++ line) :: linesFrom [] rest := by
  induction line generalizing before with
  | nil => simp [linesFrom]
  | cons char line inductionHypothesis =>
      rw [List.mem_cons, not_or] at plain
      rw [List.cons_append, linesFrom, if_neg (Ne.symm plain.1), inductionHypothesis plain.2]
      simp

/-- Lines that were each ended by a line feed are read back. -/
theorem lines_flatMap (list : List Text)
    (plain : ∀ line ∈ list, '\n' ∉ line ∧ line.getLast? ≠ some '\r') :
    lines (list.flatMap fun line => line ++ ['\n']) = list := by
  induction list with
  | nil => rfl
  | cons line rest inductionHypothesis =>
      have first := plain line List.mem_cons_self
      have later := inductionHypothesis fun other member =>
        plain other (List.mem_cons_of_mem _ member)
      unfold lines at later ⊢
      rw [List.flatMap_cons, List.append_assoc, List.singleton_append,
        linesFrom_append first.1, later]
      simp [withoutCarriageReturn, first.2]

/-- A text without white space at its ends. -/
theorem trim_eq_self {text : Text} (first : ∀ char, text.head? = some char → ¬ isWhitespace char)
    (last : ∀ char, text.getLast? = some char → ¬ isWhitespace char) : trim text = text := by
  have front : text.dropWhile isWhitespace = text := by
    cases text with
    | nil => rfl
    | cons char rest => simp [first char rfl]
  have back : text.reverse.dropWhile isWhitespace = text.reverse := by
    cases isReverse : text.reverse with
    | nil => rfl
    | cons char rest =>
      have isLast : text.getLast? = some char := by rw [← List.head?_reverse, isReverse]; rfl
      simp [last char isLast]
  rw [trim, front, back, List.reverse_reverse]

theorem wordsFrom_append {word : Text} (plain : ∀ char ∈ word, ¬ isWhitespace char)
    (before rest : Text) : wordsFrom before (word ++ rest) = wordsFrom (before ++ word) rest := by
  induction word generalizing before with
  | nil => simp
  | cons char word inductionHypothesis =>
      have later := inductionHypothesis fun other member =>
        plain other (List.mem_cons_of_mem _ member)
      rw [List.cons_append, wordsFrom, if_neg (plain char List.mem_cons_self), later]
      simp

/-- Two words with a space between them. -/
theorem splitWhitespace_pair {first second : Text} (firstSome : first ≠ []) (secondSome : second ≠ [])
    (firstPlain : ∀ char ∈ first, ¬ isWhitespace char)
    (secondPlain : ∀ char ∈ second, ¬ isWhitespace char) :
    splitWhitespace (first ++ ' ' :: second) = [first, second] := by
  have space : isWhitespace ' ' = true := by decide
  have tail : wordsFrom [] second = [second] := by
    have read := wordsFrom_append secondPlain [] []
    rw [List.append_nil, List.nil_append] at read
    simp [read, wordsFrom, secondSome]
  rw [splitWhitespace, wordsFrom_append firstPlain, List.nil_append, wordsFrom, if_pos space]
  simp [firstSome, tail]

/-- The last `width` decimal digits of a number. -/
def decimalDigits : (width value : Nat) → Text
  | 0, _ => []
  | width + 1, value => Char.ofNat (48 + value / 10 ^ width % 10) :: decimalDigits width value

@[simp] theorem length_decimalDigits (width value : Nat) :
    (decimalDigits width value).length = width := by
  induction width with
  | zero => rfl
  | succ width inductionHypothesis => simp [decimalDigits, inductionHypothesis]

theorem digit?_ofNat {digit : Nat} (small : digit < 10) :
    digit? (Char.ofNat (48 + digit)) = some digit := by
  interval_cases digit <;> decide

theorem decimalDigits_plain (width value : Nat) :
    ∀ char ∈ decimalDigits width value, 48 ≤ char.toNat ∧ char.toNat ≤ 57 := by
  induction width with
  | zero => simp [decimalDigits]
  | succ width inductionHypothesis =>
      simp only [decimalDigits, List.forall_mem_cons]
      refine ⟨?_, inductionHypothesis⟩
      have small : value / 10 ^ width % 10 < 10 := Nat.mod_lt _ (by decide)
      generalize value / 10 ^ width % 10 = digit at small
      interval_cases digit <;> decide

private theorem foldlM_decimalDigits (width value before : Nat) :
    (decimalDigits width value).foldlM
        (fun value char => (digit? char).map fun digit => value * 10 + digit) before =
      some (before * 10 ^ width + value % 10 ^ width) := by
  induction width generalizing before with
  | zero => simp [decimalDigits, Nat.mod_one]
  | succ width inductionHypothesis =>
      have small : value / 10 ^ width % 10 < 10 := Nat.mod_lt _ (by decide)
      rw [decimalDigits, List.foldlM_cons, digit?_ofNat small]
      simp only [Option.map_some, Option.bind_eq_bind, Option.bind_some]
      rw [inductionHypothesis, pow_succ, Nat.mod_mul]
      congr 1
      ring

theorem parseU64_decimalDigits {width value : Nat} (positive : 0 < width)
    (fits : value < 10 ^ width) (small : value < 2 ^ 64) :
    parseU64 (decimalDigits width value) = some value := by
  have plain := decimalDigits_plain width value
  have nonempty : decimalDigits width value ≠ [] := by
    intro empty
    have count := length_decimalDigits width value
    rw [empty] at count
    exact positive.ne count
  have unsigned : (decimalDigits width value).head? ≠ some '+' := by
    intro plus
    have member := List.mem_of_mem_head? (Option.mem_def.mpr plus)
    exact absurd (plain '+' member) (by decide)
  have read : decimal? (decimalDigits width value) = some value := by
    rw [decimal?, foldlM_decimalDigits, Nat.zero_mul, Nat.zero_add, Nat.mod_eq_of_lt fits]
  simpa [parseU64, unsigned, nonempty, read] using small

end SmartFecTunnel.Library
