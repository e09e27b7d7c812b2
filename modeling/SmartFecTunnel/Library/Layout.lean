import SmartFecTunnel.Library.BigEndian

/-!
Contract: messages that begin with fixed-width big-endian fields.

Owns:
- `pack`, the concatenation of fields given as width and value;
- `field`, the bytes at fixed offsets of a message whose length was checked;
- that reading a field at the sum of the widths before it gives its value;
- `unpack`, all fields of a message, and that packing them again gives the bytes.

Does not own: what follows the fields.
-/

namespace SmartFecTunnel.Library

/-- Bytes `start..stop` of a message that is known to be long enough. -/
def field (message : Bytes) (start stop : Nat) : Bytes := (message.take stop).drop start

/-- The number in bytes `start..stop`. -/
def number (message : Bytes) (start stop : Nat) : Nat := fromBeBytes (field message start stop)

/-- The fields, given as width and value, one after the other. -/
def pack (fields : List (Nat × Nat)) : Bytes :=
  fields.flatMap fun entry => toBeBytes entry.1 entry.2

/-- The sum of the widths. -/
def width (fields : List (Nat × Nat)) : Nat := (fields.map Prod.fst).sum

@[simp] theorem length_pack (fields : List (Nat × Nat)) : (pack fields).length = width fields := by
  induction fields with
  | nil => rfl
  | cons entry rest inductionHypothesis =>
      rw [pack, List.flatMap_cons, List.length_append, length_toBeBytes]
      rw [pack] at inductionHypothesis
      rw [inductionHypothesis]
      rfl

theorem field_block (front block back : Bytes) {start stop : Nat} (atStart : start = front.length)
    (atStop : stop = front.length + block.length) :
    field (front ++ (block ++ back)) start stop = block := by
  subst atStart atStop
  unfold field
  rw [← List.append_assoc, List.take_left' (by simp), List.drop_left]

/-- A field is read back at the sum of the widths before it. -/
theorem number_pack {fields : List (Nat × Nat)} {size value start stop : Nat} (position : Nat)
    (isField : fields[position]? = some (size, value)) (fits : value < 256 ^ size)
    (atStart : start = width (fields.take position)) (atStop : stop = start + size) (rest : Bytes) :
    number (pack fields ++ rest) start stop = value := by
  obtain ⟨within, isEntry⟩ := List.getElem?_eq_some_iff.mp isField
  have parts : pack fields ++ rest = pack (fields.take position) ++
      (toBeBytes size value ++ (pack (fields.drop (position + 1)) ++ rest)) := by
    have split : fields =
        fields.take position ++ (size, value) :: fields.drop (position + 1) := by
      rw [← isEntry, ← List.drop_eq_getElem_cons within, List.take_append_drop]
    unfold pack
    nth_rewrite 1 [split]
    rw [List.flatMap_append, List.flatMap_cons, List.append_assoc, List.append_assoc]
  unfold number
  rw [parts, field_block _ _ _ (by rw [length_pack, atStart])
    (by rw [length_pack, length_toBeBytes, atStop, atStart])]
  exact fromBeBytes_toBeBytes fits

/-! ### Reading all fields -/

theorem length_field {message : Bytes} {start stop : Nat} (within : stop ≤ message.length) :
    (field message start stop).length = stop - start := by
  rw [field, List.length_drop, List.length_take, Nat.min_eq_left within]

/-- Two adjacent ranges are one. -/
theorem field_append_field {message : Bytes} {start middle stop : Nat} (low : start ≤ middle)
    (high : middle ≤ stop) (within : middle ≤ message.length) :
    field message start middle ++ field message middle stop = field message start stop := by
  unfold field
  have isTake : message.take stop = message.take middle ++ (message.take stop).drop middle := by
    have split := List.take_append_drop middle (message.take stop)
    rw [List.take_take, Nat.min_eq_left high] at split
    exact split.symm
  nth_rewrite 2 [isTake]
  rw [List.drop_append_of_le_length (by rw [List.length_take]; omega)]

/-- Consecutive fields of the given widths from `start` on. -/
def unpack (message : Bytes) : (start : Nat) → (widths : List Nat) → List (Nat × Nat)
  | _, [] => []
  | start, size :: rest =>
    (size, number message start (start + size)) :: unpack message (start + size) rest

/-- Packing the fields of a message gives back the bytes they were read from. -/
theorem pack_unpack {message : Bytes} (start : Nat) (widths : List Nat)
    (within : start + widths.sum ≤ message.length) :
    pack (unpack message start widths) = field message start (start + widths.sum) := by
  induction widths generalizing start with
  | nil => simp [pack, unpack, field]
  | cons size rest inductionHypothesis =>
      rw [List.sum_cons] at within
      have first : toBeBytes size (number message start (start + size)) =
          field message start (start + size) := by
        apply toBeBytes_fromBeBytes
        rw [length_field (by omega)]
        omega
      have later := inductionHypothesis (start + size) (by omega)
      unfold pack at later
      rw [pack, unpack, List.flatMap_cons, later, first,
        field_append_field (by omega) (by omega) (by omega), List.sum_cons, Nat.add_assoc]

/-- The number in `message[start..stop]`, failing where the range is out of bounds. -/
def number? (message : Bytes) (start stop : Nat) : Option Nat :=
  (slice? message start stop).map fromBeBytes

theorem number?_of_le {message : Bytes} {start stop : Nat} (ordered : start ≤ stop)
    (within : stop ≤ message.length) :
    number? message start stop = some (number message start stop) := by
  rw [number?, slice?_of_le ordered within]
  rfl

end SmartFecTunnel.Library
