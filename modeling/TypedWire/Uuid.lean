import TypedWire.Text.Hex
import TypedWire.Text.Utf8

/-!
# Universally unique identifiers

- `Uuid`: 128 bits.
- `Uuid.toBytes`, `Uuid.ofBytes`: the sixteen bytes on the wire.
- `Uuid.toText`: the hyphenated form in lower case.
- `Uuid.parse?`: reads the hyphenated form, bare, between braces or after `urn:uuid:` in any case,
  and the form of 32 digits.
-/

namespace TypedWire

/-- A universally unique identifier. -/
structure Uuid where
  bits : BitVec 128
  deriving DecidableEq

namespace Uuid

/-- The identifier with the given number, modulo `2 ^ 128`. -/
def ofNat (n : Nat) : Uuid := ⟨BitVec.ofNat 128 n⟩

/-- The identifier whose bits are all zero. -/
def nil : Uuid := ofNat 0

/-- The sixteen bytes of an identifier. -/
def toBytes (u : Uuid) : Bytes := BigEndian.encode 16 u.bits.toNat

/-- The identifier that sixteen bytes spell. -/
def ofBytes (bs : Bytes) : Uuid := ofNat (BigEndian.decode bs)

@[simp] theorem length_toBytes (u : Uuid) : u.toBytes.length = 16 :=
  BigEndian.length_encode 16 _

@[simp] theorem ofBytes_toBytes (u : Uuid) : ofBytes u.toBytes = u := by
  obtain ⟨bits⟩ := u
  have hlt : bits.toNat < BigEndian.capacity 16 := bits.isLt
  rw [toBytes, ofBytes, ofNat, BigEndian.decode_encode, Nat.mod_eq_of_lt hlt,
    BitVec.ofNat_toNat, BitVec.setWidth_eq]

theorem toBytes_ofBytes {bs : Bytes} (h : bs.length = 16) : (ofBytes bs).toBytes = bs := by
  have hlt : BigEndian.decode bs < BigEndian.capacity 16 := by
    rw [← h]
    exact BigEndian.decode_lt bs
  have hbits : (BitVec.ofNat 128 (BigEndian.decode bs)).toNat = BigEndian.decode bs :=
    (BitVec.toNat_ofNat ..).trans (Nat.mod_eq_of_lt hlt)
  rw [toBytes, ofBytes, ofNat, hbits, ← h, BigEndian.encode_decode]

/-- The sizes, in digits, of the groups of the hyphenated form. -/
def groups : List Nat := [8, 4, 4, 4, 12]

/-- Cuts a text into groups of the given sizes and joins them with hyphens. -/
def hyphenate : List Nat → List Char → List Char
  | [], cs => cs
  | [_], cs => cs
  | n :: ns, cs => cs.take n ++ '-' :: hyphenate ns (cs.drop n)

/-- The hyphenated form, in lower case. -/
def toText (u : Uuid) : String :=
  String.ofList (hyphenate groups (Hex.encode u.toBytes).toList)

/-- Removes the hyphens between groups of the given sizes; every group has to be full. -/
def ungroup? : List Nat → Bytes → Option Bytes
  | [], _ => none
  | [n], text => if text.length = n then some text else none
  | n :: ns, text =>
    match text.drop n with
    | 0x2d :: rest => (ungroup? ns rest).map (text.take n ++ ·)
    | _ => none

/-- Reads 32 digits. -/
def ofDigits? (text : Bytes) : Option Uuid :=
  match Hex.decodeBytes text with
  | .ok bs => if bs.length = 16 then some (ofBytes bs) else none
  | .error _ => none

/-- Reads the hyphenated form. -/
def ofHyphenated? (text : Bytes) : Option Uuid :=
  (ungroup? groups text).bind ofDigits?

/-- What stands before an identifier that is written as a name, in small letters. -/
def urn : Bytes := Utf8.encode "urn:uuid:"

/-- An ASCII capital as a small letter; any other byte as it is. -/
def lowerByte (b : UInt8) : UInt8 :=
  if 0x41 ≤ b ∧ b ≤ 0x5a then b + 0x20 else b

/-- Whether a text starts with `urn:uuid:`, in any case. -/
def isNamed (text : Bytes) : Bool :=
  urn.isPrefixOf (text.map lowerByte)

/-- Reads an identifier in any of its four forms. -/
def parse? (s : String) : Option Uuid :=
  let text := Utf8.encode s
  match text with
  | 0x7b :: inner =>
    if inner.getLast? = some 0x7d then ofHyphenated? inner.dropLast else none
  | _ =>
    if isNamed text then ofHyphenated? (text.drop urn.length)
    else if text.length = 32 then ofDigits? text
    else ofHyphenated? text

end Uuid

end TypedWire
