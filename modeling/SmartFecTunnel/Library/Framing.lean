import Mathlib.Data.List.Basic

/-!
Contract: messages written one after the other into a stream and read back one
at a time.

A reader either fails or takes a message off the front of a stream.  A framing
is a way to write messages such that the reader gives each one back whatever
follows it, and fails on every part of one.

Owns: reading until the first failure, what that gives on a stream of written
messages, and what it gives when the stream is cut anywhere.

Does not own: any format.
-/

namespace SmartFecTunnel.Library

variable {α β ε : Type*}

/-- Read at most `calls` messages, until the first failure. -/
def readUpTo (read : List β → Except ε (α × List β)) : (calls : Nat) → List β → List α × Option ε
  | 0, _ => ([], none)
  | calls + 1, stream =>
    match read stream with
    | .error error => ([], some error)
    | .ok (message, rest) =>
      let later := readUpTo read calls rest
      (message :: later.1, later.2)

/-- Read messages until the first failure.  A reader that always takes something off the
stream fails before the calls run out. -/
def readAll (read : List β → Except ε (α × List β)) (stream : List β) : List α × Option ε :=
  readUpTo read (stream.length + 1) stream

/-- The reader of a framing of the messages that fit. -/
structure Framing (Fits : α → Prop) (write : α → List β)
    (read : List β → Except ε (α × List β)) : Prop where
  read_write : ∀ message rest, Fits message → read (write message ++ rest) = .ok (message, rest)
  read_cut : ∀ message cut, Fits message → cut <+: write message → cut ≠ write message →
    ∃ error, read cut = .error error
  read_shorter : ∀ stream message rest, read stream = .ok (message, rest) →
    rest.length < stream.length

namespace Framing

variable {Fits : α → Prop} {write : α → List β} {read : List β → Except ε (α × List β)}

/-- More calls than there is stream left make no difference. -/
theorem readUpTo_congr (framing : Framing Fits write read) {calls others : Nat} {stream : List β}
    (enough : stream.length < calls) (otherEnough : stream.length < others) :
    readUpTo read calls stream = readUpTo read others stream := by
  induction calls generalizing stream others with
  | zero => exact absurd enough (Nat.not_lt_zero _)
  | succ calls inductionHypothesis =>
      cases others with
      | zero => exact absurd otherEnough (Nat.not_lt_zero _)
      | succ others =>
          rw [readUpTo, readUpTo]
          cases isRead : read stream with
          | error error => rfl
          | ok result =>
              obtain ⟨message, rest⟩ := result
              have shorter := framing.read_shorter stream message rest isRead
              have sameRest : readUpTo read calls rest = readUpTo read others rest :=
                inductionHypothesis (by omega) (by omega)
              simp only [sameRest]

theorem readAll_of_error {stream : List β} {error : ε} (failed : read stream = .error error) :
    readAll read stream = ([], some error) := by
  rw [readAll, readUpTo, failed]

theorem readAll_of_ok (framing : Framing Fits write read) {stream rest : List β} {message : α}
    (isRead : read stream = .ok (message, rest)) :
    readAll read stream = (message :: (readAll read rest).1, (readAll read rest).2) := by
  have shorter := framing.read_shorter stream message rest isRead
  rw [readAll, readUpTo, isRead, readAll]
  simp only [framing.readUpTo_congr shorter (Nat.lt_succ_self rest.length)]

/-- Reading ends with a failure. -/
theorem readAll_fails (framing : Framing Fits write read) (stream : List β) :
    ∃ messages error, readAll read stream = (messages, some error) := by
  induction size : stream.length using Nat.strongRecOn generalizing stream with
  | ind size inductionHypothesis =>
      cases isRead : read stream with
      | error error => exact ⟨[], error, readAll_of_error isRead⟩
      | ok result =>
          obtain ⟨message, rest⟩ := result
          have shorter := framing.read_shorter stream message rest isRead
          obtain ⟨messages, error, isRest⟩ := inductionHypothesis rest.length (by omega) rest rfl
          refine ⟨message :: messages, error, ?_⟩
          rw [framing.readAll_of_ok isRead, isRest]

/-- Every message that is read has a property that the reader ensures. -/
theorem readAll_all (framing : Framing Fits write read) {property : α → Prop}
    (ensures : ∀ stream message rest, read stream = .ok (message, rest) → property message)
    (stream : List β) : ∀ message ∈ (readAll read stream).1, property message := by
  induction size : stream.length using Nat.strongRecOn generalizing stream with
  | ind size inductionHypothesis =>
      cases isRead : read stream with
      | error error =>
          rw [readAll_of_error isRead]
          exact fun _ member => absurd member List.not_mem_nil
      | ok result =>
          obtain ⟨first, rest⟩ := result
          have shorter := framing.read_shorter stream first rest isRead
          rw [framing.readAll_of_ok isRead]
          intro message member
          rcases List.mem_cons.mp member with rfl | later
          · exact ensures stream message rest isRead
          · exact inductionHypothesis rest.length (by omega) rest rfl message later

/-- Written messages are read back, and what follows them is read next. -/
theorem readAll_write (framing : Framing Fits write read) {messages : List α}
    (fits : ∀ message ∈ messages, Fits message) (rest : List β) :
    readAll read (messages.flatMap write ++ rest) =
      (messages ++ (readAll read rest).1, (readAll read rest).2) := by
  induction messages with
  | nil => rfl
  | cons message messages inductionHypothesis =>
      have isRead := framing.read_write message (messages.flatMap write ++ rest)
        (fits message List.mem_cons_self)
      have later := inductionHypothesis fun other member =>
        fits other (List.mem_cons_of_mem _ member)
      rw [List.flatMap_cons, List.append_assoc, framing.readAll_of_ok isRead, later]
      rfl

/-- Where a stream of messages is cut: behind some of them, and inside the next one. -/
theorem cut_cases {write : α → List β} {messages : List α} {cut : List β}
    (isPrefix : cut <+: messages.flatMap write) (isCut : cut ≠ messages.flatMap write) :
    ∃ front message back part, messages = front ++ message :: back ∧
      cut = front.flatMap write ++ part ∧ part <+: write message ∧ part ≠ write message := by
  induction messages generalizing cut with
  | nil => exact absurd (List.prefix_nil.mp isPrefix) isCut
  | cons message messages inductionHypothesis =>
      rw [List.flatMap_cons] at isPrefix isCut
      by_cases whole : write message <+: cut
      · obtain ⟨rest, rfl⟩ := whole
        rw [List.prefix_append_right_inj] at isPrefix
        have restCut : rest ≠ messages.flatMap write := by
          rintro rfl
          exact isCut rfl
        obtain ⟨front, next, back, part, rfl, rfl, partPrefix, partCut⟩ :=
          inductionHypothesis isPrefix restCut
        refine ⟨message :: front, next, back, part, rfl, ?_, partPrefix, partCut⟩
        rw [List.flatMap_cons, List.append_assoc]
      · refine ⟨[], message, messages, cut, rfl, rfl, ?_, ?_⟩
        · rcases List.prefix_or_prefix_of_prefix isPrefix (List.prefix_append _ _) with
            inside | beyond
          · exact inside
          · exact absurd beyond whole
        · rintro rfl
          exact whole List.prefix_rfl

/-- A stream that is cut gives the messages in front of the cut and a failure. -/
theorem readAll_cut (framing : Framing Fits write read) {messages : List α}
    (fits : ∀ message ∈ messages, Fits message) {cut : List β}
    (isPrefix : cut <+: messages.flatMap write) (isCut : cut ≠ messages.flatMap write) :
    ∃ front error, front <+: messages ∧ front ≠ messages ∧
      readAll read cut = (front, some error) := by
  obtain ⟨front, message, back, part, rfl, rfl, partPrefix, partCut⟩ := cut_cases isPrefix isCut
  obtain ⟨error, failed⟩ := framing.read_cut message part (fits message (by simp)) partPrefix
    partCut
  refine ⟨front, error, List.prefix_append _ _, by simp, ?_⟩
  rw [framing.readAll_write fun other member => fits other (by simp [member]),
    readAll_of_error failed, List.append_nil]

end Framing

end SmartFecTunnel.Library
