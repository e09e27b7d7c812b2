import Mathlib.Data.List.DropRight
import Mathlib.Data.List.TakeWhile

/-!
Contract: the newest entries of a log and those of them that have not expired.

A log grows at its end.  `List.rtake` is its newest part, `List.dropWhile` removes what has
expired from the front.  The two commute when entries expire in the order of the log.

Owns: these laws.

Does not own: what makes an entry expire.
-/

namespace SmartFecTunnel.Library

universe u

variable {α : Type u}

/-- An entry has not expired before an earlier one. -/
def ExpiresInOrder (expired : α → Bool) (log : List α) : Prop :=
  log.Pairwise fun early late => expired late = true → expired early = true

theorem rtake_of_length_le {log : List α} {count : Nat} (short : log.length ≤ count) :
    log.rtake count = log := by
  simp [List.rtake, Nat.sub_eq_zero_of_le short]

theorem rtake_cons_of_le {entry : α} {log : List α} {count : Nat} (long : count ≤ log.length) :
    (entry :: log).rtake count = log.rtake count := by
  have oneMore : log.length + 1 - count = (log.length - count) + 1 := by omega
  simp [List.rtake, oneMore]

theorem rtake_suffix (log : List α) (count : Nat) : log.rtake count <:+ log :=
  List.drop_suffix _ _

theorem rtake_rtake (log : List α) {few many : Nat} (ordered : few ≤ many) :
    (log.rtake many).rtake few = log.rtake few := by
  simp only [List.rtake, List.drop_drop, List.length_drop]
  congr 1
  omega

theorem rtake_map {β : Type u} (convert : α → β) (log : List α) (count : Nat) :
    (log.map convert).rtake count = (log.rtake count).map convert := by
  simp [List.rtake, List.map_drop]

/-- In a log that expires in order only the unexpired entries are left. -/
theorem dropWhile_eq_filter {expired : α → Bool} {log : List α}
    (inOrder : ExpiresInOrder expired log) :
    log.dropWhile expired = log.filter fun entry => !expired entry := by
  induction log with
  | nil => rfl
  | cons entry log inductionHypothesis =>
      obtain ⟨before, rest⟩ := List.pairwise_cons.mp inOrder
      by_cases isExpired : expired entry = true
      · simp [isExpired, inductionHypothesis rest]
      · have live : ∀ later ∈ log, expired later = false := by
          intro later member
          rw [Bool.eq_false_iff]
          exact fun laterExpired => isExpired (before later member laterExpired)
        rw [List.dropWhile_cons_of_neg isExpired, List.filter_cons_of_pos (by simpa using isExpired),
          List.filter_eq_self.mpr (by simpa using live)]

theorem dropWhile_rtake {expired : α → Bool} {log : List α}
    (inOrder : ExpiresInOrder expired log) (count : Nat) :
    (log.rtake count).dropWhile expired = (log.dropWhile expired).rtake count := by
  induction log with
  | nil => simp
  | cons entry log inductionHypothesis =>
      obtain ⟨before, rest⟩ := List.pairwise_cons.mp inOrder
      by_cases isExpired : expired entry = true
      · rw [List.dropWhile_cons_of_pos isExpired]
        by_cases long : count ≤ log.length
        · rw [rtake_cons_of_le long, inductionHypothesis rest]
        · have shorter := (List.dropWhile_suffix expired (l := log)).length_le
          rw [rtake_of_length_le (by simp; omega), List.dropWhile_cons_of_pos isExpired,
            rtake_of_length_le (by omega)]
      · -- Nothing in the log has expired.
        have live : ∀ other ∈ entry :: log, expired other = false := by
          intro other member
          rw [Bool.eq_false_iff]
          intro otherExpired
          rcases List.mem_cons.mp member with same | later
          · exact isExpired (same ▸ otherExpired)
          · exact isExpired (before other later otherExpired)
        have newest := (rtake_suffix (entry :: log) count).sublist
        rw [dropWhile_eq_filter (inOrder.sublist newest), List.dropWhile_cons_of_neg isExpired,
          List.filter_eq_self]
        intro other member
        simp [live other (newest.subset member)]

/-- What has expired earlier is removed now as well. -/
theorem dropWhile_dropWhile_append {early late : α → Bool}
    (stays : ∀ entry, early entry = true → late entry = true) (log more : List α) :
    (log.dropWhile early ++ more).dropWhile late = (log ++ more).dropWhile late := by
  induction log with
  | nil => rfl
  | cons entry log inductionHypothesis =>
      by_cases isExpired : early entry = true
      · rw [List.dropWhile_cons_of_pos isExpired, inductionHypothesis, List.cons_append,
          List.dropWhile_cons_of_pos (stays entry isExpired)]
      · rw [List.dropWhile_cons_of_neg isExpired]

end SmartFecTunnel.Library
