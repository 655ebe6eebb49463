import TypedWire.Proofs.Outcome
import TypedWire.Wire.Writer

/-!
# Writes that only append

Values are written by operations that add bytes to the end of a writer and leave its open regions
alone, so that what they add is the same for every writer.

- `Writer.Writes p out`: on every writer, `p` appends the bytes that `out` is, or fails with it.
- `Writer.Appends p`: `p` does to every writer what it does to a fresh one, behind what is there.
- `Writer.endBytes_beginBytes`, `Writer.endMessage_beginMessage`: a region with its content is the
  content with its length in front of it.
-/

namespace TypedWire

namespace Writer

@[simp] theorem raw_nil (w : Writer) : w.raw [] = w := by
  show (⟨w.buffer ++ [], w.pending⟩ : Writer) = w
  rw [List.append_nil]

@[simp] theorem raw_raw (a b : Bytes) (w : Writer) : (w.raw a).raw b = w.raw (a ++ b) := by
  show (⟨w.buffer ++ a ++ b, w.pending⟩ : Writer) = ⟨w.buffer ++ (a ++ b), w.pending⟩
  rw [List.append_assoc]

theorem uint8_eq_raw (n : UInt8) (w : Writer) : w.uint8 n = w.raw [n] := by
  show w.raw [UInt8.ofNat (n.toNat / 1)] = w.raw [n]
  rw [Nat.div_one, UInt8.ofNat_toNat]

theorem uint32_eq_raw (n : UInt32) (w : Writer) :
    w.uint32 n = w.raw (BigEndian.encode 4 n.toNat) := rfl

/-- On every writer, `p` appends the bytes that `out` is, or fails with its failure. -/
def Writes (p : Writer → Except EncodeError Writer) (out : Except EncodeError Bytes) : Prop :=
  ∀ w, p w = out.map fun bytes => w.raw bytes

namespace Writes

variable {p q : Writer → Except EncodeError Writer} {out out' : Except EncodeError Bytes}

theorem ok (bytes : Bytes) : Writes (fun w => .ok (w.raw bytes)) (.ok bytes) := fun _ => rfl

/-- Writing nothing. -/
theorem nothing : Writes .ok (.ok []) := fun w => congrArg Except.ok (raw_nil w).symm

theorem bind (hp : Writes p out) (hq : Writes q out') :
    Writes (fun w => p w >>= q) (do return (← out) ++ (← out')) := by
  intro w
  show p w >>= q = _
  rw [hp]
  cases out with
  | error e => rfl
  | ok a =>
    show q (w.raw a) = _
    rw [hq]
    cases out' with
    | error e => rfl
    | ok b => exact congrArg Except.ok (raw_raw a b w)

/-- Writes after some bytes. -/
theorem after (bytes : Bytes) (hp : Writes p out) :
    Writes (fun w => p (w.raw bytes)) (do return bytes ++ (← out)) :=
  (ok bytes).bind hp

end Writes

/-- What is done to a writer is what is done to a fresh one, behind the bytes that are there. -/
structure Appends (p : Writer → Except EncodeError Writer) : Prop where
  /-- It fails on a writer exactly if it fails on a fresh one, and with the same failure. -/
  fails_iff : ∀ w e, p w = .error e ↔ p .empty = .error e
  /-- Otherwise the bytes of the fresh writer are added, and the open regions stay as they are. -/
  adds_iff : ∀ w w', p w = .ok w' ↔ ∃ fresh, p .empty = .ok fresh ∧ fresh.pending = [] ∧
    w'.buffer = w.buffer ++ fresh.buffer ∧ w'.pending = w.pending

theorem Writes.appends {p : Writer → Except EncodeError Writer} {out : Except EncodeError Bytes}
    (h : Writes p out) : Appends p := by
  cases out with
  | error e =>
    have hfails : ∀ w, p w = .error e := h
    exact ⟨fun w e' => by rw [hfails, hfails], fun w w' => by simp [hfails]⟩
  | ok bytes =>
    have hadds : ∀ w, p w = .ok (w.raw bytes) := h
    refine ⟨fun w e => by simp [hadds], fun w w' => ?_⟩
    constructor
    · intro hw
      obtain rfl := Except.ok.inj ((hadds w).symm.trans hw)
      exact ⟨empty.raw bytes, hadds _, rfl, rfl, rfl⟩
    · rintro ⟨fresh, hfresh, -, hbuffer, hpending⟩
      obtain rfl := Except.ok.inj ((hadds _).symm.trans hfresh)
      obtain ⟨buffer, pending⟩ := w'
      obtain rfl : buffer = w.buffer ++ bytes := hbuffer
      obtain rfl := hpending
      exact hadds w

/-- Overwriting four bytes that were kept free for a length, with some content behind them. -/
theorem patch_placeholder (length : Nat) (bytes : Bytes) (w : Writer) :
    ((w.uint32 0).raw bytes).patch w.buffer.length length =
      (lengthPrefix length).map fun n => w.raw (BigEndian.encode 4 n.toNat ++ bytes) := by
  have htake : (w.buffer ++ BigEndian.encode 4 0 ++ bytes).take w.buffer.length = w.buffer := by
    rw [List.append_assoc, List.take_left]
  have hdrop : (w.buffer ++ BigEndian.encode 4 0 ++ bytes).drop (w.buffer.length + 4) = bytes := by
    rw [List.drop_left']
    rw [List.length_append, BigEndian.length_encode]
  show Writer.patch w.buffer.length length ⟨w.buffer ++ BigEndian.encode 4 0 ++ bytes, w.pending⟩ = _
  rw [Writer.patch]
  cases lengthPrefix length with
  | error e => rfl
  | ok n =>
    show Except.ok (Writer.mk _ _) = Except.ok (Writer.mk _ _)
    rw [htake, hdrop, List.append_assoc]

theorem length_placeholder (bytes : Bytes) (w : Writer) :
    ((w.uint32 0).raw bytes).buffer.length = w.buffer.length + 4 + bytes.length := by
  show (w.buffer ++ BigEndian.encode 4 0 ++ bytes).length = _
  rw [List.length_append, List.length_append, BigEndian.length_encode]

/-- A region with its content is the length of the content and the content. -/
theorem endBytes_beginBytes (bytes : Bytes) (w : Writer) :
    (w.beginBytes.raw bytes).endBytes =
      (lengthPrefix bytes.length).map fun n => w.raw (BigEndian.encode 4 n.toNat ++ bytes) := by
  have hlen : ((w.uint32 0).raw bytes).buffer.length - w.buffer.length - 4 = bytes.length := by
    rw [length_placeholder]
    omega
  show ((w.uint32 0).raw bytes).patch w.buffer.length
    (((w.uint32 0).raw bytes).buffer.length - w.buffer.length - 4) = _
  rw [hlen, patch_placeholder]

/-- A message with its content is its tag, the length of the content and of the length itself, and
the content. -/
theorem endMessage_beginMessage (tag : UInt8) (bytes : Bytes) (w : Writer) :
    ((w.beginMessage tag).raw bytes).endMessage =
      (lengthPrefix (4 + bytes.length)).map fun n =>
        w.raw (tag :: (BigEndian.encode 4 n.toNat ++ bytes)) := by
  have hlen : (((w.uint8 tag).uint32 0).raw bytes).buffer.length - (w.uint8 tag).buffer.length =
      4 + bytes.length := by
    rw [length_placeholder]
    omega
  show (((w.uint8 tag).uint32 0).raw bytes).patch (w.uint8 tag).buffer.length
    ((((w.uint8 tag).uint32 0).raw bytes).buffer.length - (w.uint8 tag).buffer.length) = _
  rw [hlen, patch_placeholder, uint8_eq_raw]
  simp only [raw_raw, List.singleton_append]

end Writer

end TypedWire
