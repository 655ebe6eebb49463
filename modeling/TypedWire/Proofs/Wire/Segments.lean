import TypedWire.Proofs.Wire.Reads
import TypedWire.Proofs.Wire.Writes
import TypedWire.Wire.Item

/-!
# Nested regions and their bytes

Operations on a writer come in a row, and what they write is a tree: an opening and its closing
enclose the content of a region.

- `Item.spell`: the bytes of an item; `Frame.spell`: those of a region around some content.
- `Segment`: an item, or a region with all that is in it; `Segment.spell`: its bytes.
- `Segment.steps`: the operations that write it, in their order.
- `Writer.steps_segments`: below the limit of a length, these operations append those bytes.
-/

namespace TypedWire

open Read (spellBlock spellMessage)

/-! ## Lengths that fit -/

theorem lengthPrefix_of_lt {length : Nat} (h : length < UInt32.size) :
    lengthPrefix length = .ok (UInt32.ofNat length) := by
  rw [lengthPrefix, if_pos h]

namespace Writer

theorem block_of_lt {bytes : Bytes} (h : bytes.length < UInt32.size) (w : Writer) :
    w.block bytes = .ok (w.raw (spellBlock bytes)) := by
  rw [block, lengthPrefix_of_lt h]
  show Except.ok ((w.raw (BigEndian.encode 4 (UInt32.ofNat bytes.length).toNat)).raw bytes) = _
  rw [UInt32.toNat_ofNat_of_lt' h, raw_raw, spellBlock]

theorem endBytes_of_lt {bytes : Bytes} (h : bytes.length < UInt32.size) (w : Writer) :
    (w.beginBytes.raw bytes).endBytes = .ok (w.raw (spellBlock bytes)) := by
  rw [endBytes_beginBytes, lengthPrefix_of_lt h, Except.map, UInt32.toNat_ofNat_of_lt' h, spellBlock]

theorem endMessage_of_lt (tag : UInt8) {bytes : Bytes}
    (h : Read.messageHeader + bytes.length < UInt32.size) (w : Writer) :
    ((w.beginMessage tag).raw bytes).endMessage = .ok (w.raw (spellMessage tag bytes)) := by
  have hlt : 4 + bytes.length < UInt32.size := h
  rw [endMessage_beginMessage, lengthPrefix_of_lt hlt, Except.map, UInt32.toNat_ofNat_of_lt' hlt]
  rfl

end Writer

/-! ## Items -/

namespace Item

/-- The bytes of an item. -/
def spell : Item → Bytes
  | .uint8 n => [n]
  | .uint16 n => BigEndian.encode 2 n.toNat
  | .uint32 n => BigEndian.encode 4 n.toNat
  | .uint64 n => BigEndian.encode 8 n.toNat
  | .int16 n => BigEndian.encode 2 n.toUInt16.toNat
  | .int32 n => BigEndian.encode 4 n.toUInt32.toNat
  | .int64 n => BigEndian.encode 8 n.toUInt64.toNat
  | .float32 bits => BigEndian.encode 4 bits.toNat
  | .float64 bits => BigEndian.encode 8 bits.toNat
  | .uuid u => u.toBytes
  | .raw bytes => bytes
  | .block bytes => spellBlock bytes
  | .text s => spellBlock (Utf8.encode s)

/-- Writing an item appends its bytes, or the item has a length that four bytes do not hold. -/
theorem write_cases (i : Item) (w : Writer) :
    i.write w = .ok (w.raw i.spell) ∨
      UInt32.size ≤ i.spell.length ∧ ∃ n, i.write w = .error (.tooLong n) := by
  have hblock : ∀ bytes, w.block bytes = .ok (w.raw (spellBlock bytes)) ∨
      UInt32.size ≤ (spellBlock bytes).length ∧ ∃ n, w.block bytes = .error (.tooLong n) := by
    intro bytes
    by_cases h : bytes.length < UInt32.size
    · exact .inl (Writer.block_of_lt h w)
    · refine .inr ⟨by rw [Read.length_spellBlock]; omega, bytes.length, ?_⟩
      rw [Writer.block, lengthPrefix, if_neg h]
      rfl
  cases i with
  | uint8 n => exact .inl (congrArg Except.ok (Writer.uint8_eq_raw n w))
  | block bytes => exact hblock bytes
  | text s => exact hblock (Utf8.encode s)
  | _ => exact .inl rfl

theorem write_of_lt {i : Item} (h : i.spell.length < UInt32.size) (w : Writer) :
    i.write w = .ok (w.raw i.spell) := by
  rcases i.write_cases w with hok | ⟨hlong, -⟩
  · exact hok
  · omega

end Item

/-! ## Regions with their content -/

/-- How a region is framed. -/
inductive Frame where
  /-- By the length of its content. -/
  | bytes
  /-- By a tag, and by a length that counts its own four bytes too. -/
  | message (tag : UInt8)

namespace Frame

/-- The bytes of a region with the given content. -/
def spell : Frame → Bytes → Bytes
  | .bytes, content => spellBlock content
  | .message tag, content => spellMessage tag content

/-- The operation that opens the region. -/
def opening : Frame → Writer.Step
  | .bytes => .beginBytes
  | .message tag => .beginMessage tag

/-- The operation that closes it. -/
def closing : Frame → Writer.Step
  | .bytes => .endBytes
  | .message _ => .endMessage

/-- A writer with the region opened. -/
def openOn : Frame → Writer → Writer
  | .bytes, w => w.beginBytes
  | .message tag, w => w.beginMessage tag

theorem step_opening (f : Frame) (w : Writer) : w.step f.opening = .ok (f.openOn w) := by
  cases f <;> rfl

/-- Closing a region puts its content into the frame. -/
theorem step_closing {f : Frame} {content : Bytes} (h : (f.spell content).length ≤ UInt32.size)
    (w : Writer) : ((f.openOn w).raw content).step f.closing = .ok (w.raw (f.spell content)) := by
  cases f with
  | bytes =>
    rw [spell, Read.length_spellBlock] at h
    exact Writer.endBytes_of_lt (by omega) w
  | message tag =>
    rw [spell, Read.length_spellMessage] at h
    exact Writer.endMessage_of_lt tag (by omega) w

theorem length_lt_spell (f : Frame) (content : Bytes) :
    content.length < (f.spell content).length := by
  cases f with
  | bytes =>
    rw [spell, Read.length_spellBlock]
    omega
  | message tag =>
    rw [spell, Read.length_spellMessage]
    omega

end Frame

/-- Something written: an item, or a region with all that is written in it. -/
inductive Segment where
  | item (item : Item)
  | region (frame : Frame) (content : List Segment)

namespace Segment

mutual

/-- The bytes of a segment. -/
def spell : Segment → Bytes
  | .item i => i.spell
  | .region f content => f.spell (spellAll content)

/-- The bytes of segments, one after the other. -/
def spellAll : List Segment → Bytes
  | [] => []
  | s :: segments => s.spell ++ spellAll segments

end

mutual

/-- The operations that write a segment. -/
def steps : Segment → List Writer.Step
  | .item i => [.item i]
  | .region f content => f.opening :: stepsAll content ++ [f.closing]

/-- The operations that write segments, one after the other. -/
def stepsAll : List Segment → List Writer.Step
  | [] => []
  | s :: segments => s.steps ++ stepsAll segments

end

theorem spellAll_append (front back : List Segment) :
    spellAll (front ++ back) = spellAll front ++ spellAll back := by
  induction front with
  | nil => rfl
  | cons s front ih =>
    show s.spell ++ spellAll (front ++ back) = s.spell ++ spellAll front ++ spellAll back
    rw [ih, List.append_assoc]

theorem stepsAll_append (front back : List Segment) :
    stepsAll (front ++ back) = stepsAll front ++ stepsAll back := by
  induction front with
  | nil => rfl
  | cons s front ih =>
    show s.steps ++ stepsAll (front ++ back) = s.steps ++ stepsAll front ++ stepsAll back
    rw [ih, List.append_assoc]

theorem spellAll_singleton (s : Segment) : spellAll [s] = s.spell := by
  rw [spellAll, spellAll, List.append_nil]

theorem stepsAll_singleton (s : Segment) : stepsAll [s] = s.steps := by
  rw [stepsAll, stepsAll, List.append_nil]

end Segment

/-! ## Writing segments -/

namespace Writer

/-- Carries out operations up to the first that fails. -/
def steps (w : Writer) (ops : List Step) : Except EncodeError Writer :=
  ops.foldlM step w

theorem steps_cons {w w' : Writer} {op : Step} (h : w.step op = .ok w') (ops : List Step) :
    w.steps (op :: ops) = w'.steps ops := by
  rw [steps, List.foldlM_cons, h]
  rfl

theorem steps_append {w w' : Writer} {front : List Step} (h : w.steps front = .ok w')
    (back : List Step) : w.steps (front ++ back) = w'.steps back := by
  rw [steps, List.foldlM_append, ← steps, h]
  rfl

/-- The operations of a region append its bytes if those of the content do so. -/
theorem steps_region {f : Frame} {content : Bytes} {ops : List Step} {w : Writer}
    (hlen : (f.spell content).length ≤ UInt32.size)
    (h : (f.openOn w).steps ops = .ok ((f.openOn w).raw content)) :
    w.steps (f.opening :: ops ++ [f.closing]) = .ok (w.raw (f.spell content)) :=
  calc w.steps (f.opening :: (ops ++ [f.closing]))
      = (f.openOn w).steps (ops ++ [f.closing]) := steps_cons (f.step_opening w) _
    _ = ((f.openOn w).raw content).steps [f.closing] := steps_append h _
    _ = .ok (w.raw (f.spell content)) := steps_cons (Frame.step_closing hlen w) []

mutual

/-- The operations of a segment append its bytes. -/
theorem steps_segment : ∀ (s : Segment) (w : Writer), s.spell.length < UInt32.size →
    w.steps s.steps = .ok (w.raw s.spell)
  | .item i, w, h => by
    have hwrite : w.step (.item i) = .ok (w.raw i.spell) := Item.write_of_lt h w
    exact steps_cons hwrite []
  | .region f content, w, h => by
    rw [Segment.spell] at h
    have hlt := f.length_lt_spell (Segment.spellAll content)
    exact steps_region (Nat.le_of_lt h) (steps_segments content (f.openOn w) (by omega))

/-- The operations of segments append the bytes of all of them. -/
theorem steps_segments : ∀ (segments : List Segment) (w : Writer),
    (Segment.spellAll segments).length < UInt32.size →
      w.steps (Segment.stepsAll segments) = .ok (w.raw (Segment.spellAll segments))
  | [], w, h => congrArg Except.ok (raw_nil w).symm
  | s :: segments, w, h => by
    rw [Segment.spellAll, List.length_append] at h
    rw [Segment.stepsAll, steps_append (steps_segment s w (by omega)),
      steps_segments segments _ (by omega), raw_raw, Segment.spellAll]

end

end Writer

end TypedWire
