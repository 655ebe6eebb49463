import TypedWire.Proofs.Wire.Segments

/-!
# Reading what was written

A tree of items and regions is read back by the calls that mirror its writing, whichever of the two
calls is taken for a region; and writing again the messages of any bytes gives those bytes.

- `Plan`: nested calls on a reader; `Plan.read` carries them out and checks that the inner readers
  are used up.
- `Plan.Mirrors`: a plan takes a call for each item and for each region of a segment.
- `Plan.takes_segment`: such a plan takes the bytes of the segment and gives the segment.
- `Read.messages`: the messages that can be read one after the other; `Read.messages_spec`.
- `Plan.inverse_of_writing`: reading and writing undo each other.
-/

namespace TypedWire

open Read (Takes spellBlock spellMessage)

/-! ## Plans -/

/-- The kind under which an item is read. -/
def Item.kind : Item → Item.Kind
  | .uint8 _ => .uint8
  | .uint16 _ => .uint16
  | .uint32 _ => .uint32
  | .uint64 _ => .uint64
  | .int16 _ => .int16
  | .int32 _ => .int32
  | .int64 _ => .int64
  | .float32 _ => .float32
  | .float64 _ => .float64
  | .uuid _ => .uuid
  | .raw bytes => .raw bytes.length
  | .block _ => .block
  | .text _ => .text

namespace Item

/-- Four bytes hold the length of the item, if the length is written. -/
def Announced : Item → Prop
  | .block bytes => bytes.length < UInt32.size
  | .text s => (Utf8.encode s).length < UInt32.size
  | _ => True

theorem announced_of_lt {i : Item} (h : i.spell.length < UInt32.size) : i.Announced := by
  have hblock : ∀ {bytes : Bytes}, (spellBlock bytes).length < UInt32.size →
      bytes.length < UInt32.size := by
    intro bytes hlen
    rw [Read.length_spellBlock] at hlen
    omega
  cases i with
  | block bytes | text s => exact hblock h
  | _ => trivial

/-- Items of a kind are read if what they are made of is. -/
theorem reads_map {α : Type} {p : Read DecodeError α} {spells : Bytes → α → Prop}
    (hp : Read.Reads p spells) {f : α → Item} {kind : Kind}
    (hkind : ∀ i : Item, i.kind = kind → ∃ a, f a = i)
    (hspells : ∀ front a, spells front a ↔
      (f a).kind = kind ∧ front = (f a).spell ∧ (f a).Announced) :
    Read.Reads (f <$> p) fun front i => i.kind = kind ∧ front = i.spell ∧ i.Announced := by
  refine (hp.map f).congr fun front i => ?_
  constructor
  · rintro ⟨a, rfl, ha⟩
    exact (hspells front a).mp ha
  · rintro ⟨hi, ha⟩
    obtain ⟨a, rfl⟩ := hkind i hi
    exact ⟨a, rfl, (hspells front a).mpr ⟨hi, ha⟩⟩

/-- What is read under a kind are the items of the kind. -/
theorem reads_kind (kind : Kind) :
    Read.Reads kind.read fun front i => i.kind = kind ∧ front = i.spell ∧ i.Announced := by
  -- of an item that is its bytes alone, no length is announced
  have hplain (front : Bytes) (i : Item) (h : i.Announced) :
      front = i.spell ↔ i.kind = i.kind ∧ front = i.spell ∧ i.Announced :=
    ⟨fun hfront => ⟨rfl, hfront, h⟩, fun hi => hi.2.1⟩
  cases kind with
  | uint8 =>
    exact reads_map Read.reads_uint8 (by rintro ⟨⟩ ⟨⟩; exact ⟨_, rfl⟩)
      fun front n => hplain front (.uint8 n) trivial
  | uint16 =>
    exact reads_map Read.reads_uint16 (by rintro ⟨⟩ ⟨⟩; exact ⟨_, rfl⟩)
      fun front n => hplain front (.uint16 n) trivial
  | uint32 =>
    exact reads_map Read.reads_uint32 (by rintro ⟨⟩ ⟨⟩; exact ⟨_, rfl⟩)
      fun front n => hplain front (.uint32 n) trivial
  | uint64 =>
    exact reads_map Read.reads_uint64 (by rintro ⟨⟩ ⟨⟩; exact ⟨_, rfl⟩)
      fun front n => hplain front (.uint64 n) trivial
  | int16 =>
    exact reads_map Read.reads_int16 (by rintro ⟨⟩ ⟨⟩; exact ⟨_, rfl⟩)
      fun front n => hplain front (.int16 n) trivial
  | int32 =>
    exact reads_map Read.reads_int32 (by rintro ⟨⟩ ⟨⟩; exact ⟨_, rfl⟩)
      fun front n => hplain front (.int32 n) trivial
  | int64 =>
    exact reads_map Read.reads_int64 (by rintro ⟨⟩ ⟨⟩; exact ⟨_, rfl⟩)
      fun front n => hplain front (.int64 n) trivial
  | float32 =>
    exact reads_map Read.reads_uint32 (by rintro ⟨⟩ ⟨⟩; exact ⟨_, rfl⟩)
      fun front n => hplain front (.float32 n) trivial
  | float64 =>
    exact reads_map Read.reads_uint64 (by rintro ⟨⟩ ⟨⟩; exact ⟨_, rfl⟩)
      fun front n => hplain front (.float64 n) trivial
  | uuid =>
    exact reads_map Read.reads_uuid (by rintro ⟨⟩ ⟨⟩; exact ⟨_, rfl⟩)
      fun front u => hplain front (.uuid u) trivial
  | raw length =>
    refine reads_map (Read.reads_take length) (by rintro ⟨⟩ ⟨⟩; exact ⟨_, rfl⟩) fun front bytes => ?_
    constructor
    · rintro ⟨rfl, rfl⟩
      exact ⟨rfl, rfl, trivial⟩
    · rintro ⟨hkind, rfl, -⟩
      exact ⟨rfl, Kind.raw.inj hkind⟩
  | block =>
    exact reads_map Read.reads_block (by rintro ⟨⟩ ⟨⟩; exact ⟨_, rfl⟩)
      fun front bytes => ⟨fun h => ⟨rfl, h⟩, And.right⟩
  | text =>
    exact reads_map Read.reads_text (by rintro ⟨⟩ ⟨⟩; exact ⟨_, rfl⟩)
      fun front s => ⟨fun h => ⟨rfl, h⟩, And.right⟩

end Item

/-- Nested calls on a reader. -/
inductive Plan where
  /-- Read an item. -/
  | item (kind : Item.Kind)
  /-- Read a block, and go on in a reader over its bytes. -/
  | block (content : List Plan)
  /-- Read a length, and go on in a reader over that many bytes. -/
  | slice (content : List Plan)
  /-- Read a message, and go on in a reader over its body. -/
  | message (content : List Plan)

namespace Plan

mutual

/-- Carries out a plan; an inner reader has to be empty in the end. -/
def read : Plan → Read DecodeError Segment
  | .item kind => .item <$> kind.read
  | .block content => do
    let bytes ← Read.block
    .region .bytes <$> Read.inside bytes (readAll content).toEnd
  | .slice content => do
    let length ← Read.uint32
    let bytes ← Read.take length.toNat
    .region .bytes <$> Read.inside bytes (readAll content).toEnd
  | .message content => do
    let (tag, body) ← Read.message
    .region (.message tag) <$> Read.inside body (readAll content).toEnd

/-- Carries out plans, one after the other. -/
def readAll : List Plan → Read DecodeError (List Segment)
  | [] => pure []
  | p :: plans => do
    let s ← p.read
    let segments ← readAll plans
    return s :: segments

end

mutual

/-- The plan has a call for each item and each region of the segment. -/
inductive Mirrors : Plan → Segment → Prop
  | item (i : Item) : Mirrors (.item i.kind) (.item i)
  | block {plans : List Plan} {segments : List Segment} (content : MirrorsAll plans segments) :
      Mirrors (.block plans) (.region .bytes segments)
  | slice {plans : List Plan} {segments : List Segment} (content : MirrorsAll plans segments) :
      Mirrors (.slice plans) (.region .bytes segments)
  | message (tag : UInt8) {plans : List Plan} {segments : List Segment}
      (content : MirrorsAll plans segments) :
      Mirrors (.message plans) (.region (.message tag) segments)

/-- So it is for rows of plans and segments. -/
inductive MirrorsAll : List Plan → List Segment → Prop
  | nil : MirrorsAll [] []
  | cons {p : Plan} {s : Segment} {plans : List Plan} {segments : List Segment}
      (head : Mirrors p s) (tail : MirrorsAll plans segments) :
      MirrorsAll (p :: plans) (s :: segments)

end

mutual

/-- Whatever is written, there are calls that mirror it. -/
theorem exists_mirrors : ∀ s : Segment, ∃ p, Mirrors p s
  | .item i => ⟨_, .item i⟩
  | .region f content => by
    obtain ⟨plans, hplans⟩ := exists_mirrorsAll content
    cases f with
    | bytes => exact ⟨.block plans, .block hplans⟩
    | message tag => exact ⟨.message plans, .message tag hplans⟩

theorem exists_mirrorsAll : ∀ segments : List Segment, ∃ plans, MirrorsAll plans segments
  | [] => ⟨[], .nil⟩
  | s :: segments => by
    obtain ⟨p, hp⟩ := exists_mirrors s
    obtain ⟨plans, hplans⟩ := exists_mirrorsAll segments
    exact ⟨p :: plans, .cons hp hplans⟩

end

/-! ## Reading back -/

theorem takes_item {i : Item} (h : i.spell.length < UInt32.size) :
    Takes i.kind.read i.spell i :=
  (Item.reads_kind i.kind).takes ⟨rfl, rfl, Item.announced_of_lt h⟩

/-- The content of a region is read in a reader of its own, and uses it up. -/
theorem takes_region (f : Frame) {plans : List Plan} {content : Bytes} {segments : List Segment}
    (h : Takes (readAll plans) content segments) :
    Takes (Segment.region f <$> Read.inside content (readAll plans).toEnd) []
      (.region f segments) :=
  (Takes.inside_toEnd h.run).map _

mutual

/-- A plan that mirrors a segment takes the bytes of the segment and gives the segment. -/
theorem takes_segment : ∀ {p : Plan} {s : Segment}, Mirrors p s →
    s.spell.length < UInt32.size → Takes p.read s.spell s
  | _, _, .item i, h => (takes_item h).map _
  | _, _, @Mirrors.block plans segments content, h => by
    rw [Segment.spell, Frame.spell, Read.length_spellBlock] at h
    have hlt : (Segment.spellAll segments).length < UInt32.size := by omega
    have hblock : Takes Read.block (spellBlock (Segment.spellAll segments)) _ :=
      Read.reads_block.takes ⟨rfl, hlt⟩
    exact hblock.bind_nil (takes_region .bytes (takes_segments content hlt))
  | _, _, @Mirrors.slice plans segments content, h => by
    rw [Segment.spell, Frame.spell, Read.length_spellBlock] at h
    have hlt : (Segment.spellAll segments).length < UInt32.size := by omega
    obtain ⟨n, hn⟩ : ∃ n : UInt32, n.toNat = (Segment.spellAll segments).length :=
      ⟨_, UInt32.toNat_ofNat_of_lt' hlt⟩
    -- the number that is read is the length of the bytes that are taken next
    rw [Segment.spell, Frame.spell, spellBlock, ← hn]
    refine (Read.takes_uint32 n).bind ?_
    rw [hn]
    exact (Read.takes_take _).bind_nil (takes_region .bytes (takes_segments content hlt))
  | _, _, @Mirrors.message tag plans segments content, h => by
    rw [Segment.spell, Frame.spell, Read.length_spellMessage] at h
    have hlt : Read.messageHeader + (Segment.spellAll segments).length < UInt32.size := by omega
    have hmessage : Takes Read.message (spellMessage tag (Segment.spellAll segments))
        (tag, Segment.spellAll segments) := Read.reads_message.takes ⟨rfl, hlt⟩
    exact hmessage.bind_nil (takes_region (.message tag) (takes_segments content (by omega)))

/-- So it is for rows of plans and segments. -/
theorem takes_segments : ∀ {plans : List Plan} {segments : List Segment},
    MirrorsAll plans segments → (Segment.spellAll segments).length < UInt32.size →
      Takes (readAll plans) (Segment.spellAll segments) segments
  | _, _, .nil, _ => .pure []
  | _, _, @MirrorsAll.cons p s plans segments head tail, h => by
    rw [Segment.spellAll, List.length_append] at h
    have hs := takes_segment head (by omega)
    have hsegments := takes_segments tail (by omega)
    exact hs.bind (hsegments.map (s :: ·))

end

end Plan

/-! ## Messages one after the other -/

namespace Read

/-- What is left behind a message is shorter. -/
theorem length_message {bs left : Bytes} {m : UInt8 × Bytes} (h : message bs = .ok (m, left)) :
    left.length < bs.length := by
  obtain ⟨_, rfl, rfl, -⟩ := (reads_message _ _ _).mp h
  rw [List.length_append, length_spellMessage]
  omega

/-- The messages that can be read one after the other, and what is left behind the last. -/
def messages (bs : Bytes) : List (UInt8 × Bytes) × Bytes :=
  match _h : message bs with
  | .ok (m, left) => (m :: (messages left).1, (messages left).2)
  | .error _ => ([], bs)
termination_by bs.length
decreasing_by all_goals exact length_message _h

/-- The operations that write messages. -/
def rewrite (ms : List (UInt8 × Bytes)) : List Writer.Step :=
  ms.flatMap fun (tag, body) => [.beginMessage tag, .item (.raw body), .endMessage]

/-- The messages of some bytes, written again, are the bytes that were read. -/
theorem messages_spec (bs : Bytes) :
    (∃ e, message (messages bs).2 = .error e) ∧
      ∃ read, read ++ (messages bs).2 = bs ∧
        ∀ w : Writer, w.steps (rewrite (messages bs).1) = .ok (w.raw read) := by
  fun_induction messages bs with
  | case1 bs m left h ih =>
    obtain ⟨hend, read, hread, hsteps⟩ := ih
    obtain ⟨_, rfl, rfl, hlt⟩ := (reads_message _ _ _).mp h
    refine ⟨hend, spellMessage m.1 m.2 ++ read, by rw [List.append_assoc, hread], fun w => ?_⟩
    have hlen : ((Frame.message m.1).spell m.2).length ≤ UInt32.size := by
      rw [Frame.spell, length_spellMessage]
      omega
    have hfirst : w.steps [.beginMessage m.1, .item (.raw m.2), .endMessage] =
        .ok (w.raw (spellMessage m.1 m.2)) := Writer.steps_region hlen (Writer.steps_cons rfl [])
    show w.steps ([.beginMessage m.1, .item (.raw m.2), .endMessage] ++ rewrite (messages left).1) = _
    rw [Writer.steps_append hfirst, hsteps, Writer.raw_raw]
  | case2 bs e h => exact ⟨⟨e, h⟩, [], rfl, fun w => congrArg Except.ok w.raw_nil.symm⟩

end Read

namespace Plan

/-- Reading and writing undo each other. What was written, with any bytes behind it, is read by every
plan that mirrors it, and these bytes are left. And what is read as messages from any bytes, until no
message is there, is written again as it was. -/
theorem inverse_of_writing :
    (∀ segments : List Segment, (Segment.spellAll segments).length < UInt32.size →
      ∃ w bytes, Writer.empty.steps (Segment.stepsAll segments) = .ok w ∧
        w.intoBytes = .ok bytes ∧ bytes = Segment.spellAll segments ∧
        (∃ plans, MirrorsAll plans segments) ∧
        ∀ plans, MirrorsAll plans segments → ∀ t, readAll plans (bytes ++ t) = .ok (segments, t)) ∧
    ∀ bs : Bytes, (∃ e, Read.message (Read.messages bs).2 = .error e) ∧
      ∃ w bytes, Writer.empty.steps (Read.rewrite (Read.messages bs).1) = .ok w ∧
        w.intoBytes = .ok bytes ∧ bytes ++ (Read.messages bs).2 = bs := by
  constructor
  · intro segments h
    refine ⟨_, _, Writer.steps_segments segments .empty h, rfl, rfl, exists_mirrorsAll segments, ?_⟩
    intro plans hplans
    exact takes_segments hplans h
  · intro bs
    obtain ⟨hend, read, hread, hsteps⟩ := Read.messages_spec bs
    exact ⟨hend, _, _, hsteps .empty, rfl, hread⟩

/-- A message with a region in it and a text behind it; and two messages with a byte behind them. -/
theorem inverse_of_writing_message :
    let segments : List Segment :=
      [.region (.message 68) [.region .bytes [.item (.int64 7)]], .item (.text "é")]
    let bytes : Bytes :=
      [68, 0, 0, 0, 16, 0, 0, 0, 8, 0, 0, 0, 0, 0, 0, 0, 7, 0, 0, 0, 2, 195, 169]
    let plans : List Plan := [.message [.slice [.item .int64]], .item .text]
    let ops : List Writer.Step := [.beginMessage 84, .item (.raw [9]), .endMessage,
      .beginMessage 65, .item (.raw []), .endMessage]
    bytes.length < UInt32.size ∧ MirrorsAll plans segments ∧
      readAll plans (bytes ++ [1, 2]) = .ok (segments, [1, 2]) ∧
      ∃ w, Writer.empty.steps ops = .ok w ∧
        w.intoBytes = .ok [84, 0, 0, 0, 5, 9, 65, 0, 0, 0, 4] := by
  dsimp only
  obtain ⟨hwritten, hmessages⟩ := inverse_of_writing
  have hmirrors : MirrorsAll [.message [.slice [.item .int64]], .item .text]
      [.region (.message 68) [.region .bytes [.item (.int64 7)]], .item (.text "é")] :=
    .cons (.message 68 (.cons (.slice (.cons (.item (.int64 7)) .nil)) .nil))
      (.cons (.item (.text "é")) .nil)
  refine ⟨by decide, hmirrors, ?_, ?_⟩
  · obtain ⟨w, bytes, -, -, rfl, -, hread⟩ := hwritten
      [.region (.message 68) [.region .bytes [.item (.int64 7)]], .item (.text "é")] (by decide)
    exact hread _ hmirrors [1, 2]
  · obtain ⟨-, w, bytes, hw, hbytes, hread⟩ := hmessages [84, 0, 0, 0, 5, 9, 65, 0, 0, 0, 4, 7]
    have hms : Read.messages [84, 0, 0, 0, 5, 9, 65, 0, 0, 0, 4, 7] =
        ([(84, [9]), (65, [])], [7]) := by
      decide +kernel
    rw [hms] at hw hread
    exact ⟨w, hw, hbytes.trans (congrArg Except.ok (List.append_cancel_right hread))⟩

end Plan

end TypedWire
