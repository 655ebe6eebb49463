import Mathlib.Algebra.GroupWithZero.Nat
import TypedWire.Uuid

/-!
# Hexadecimal texts and identifiers read back

Digits and hyphens are single bytes in UTF-8, so that a text made of them can be read byte by byte
or character by character.

- `Utf8.encode_ofList`: a text of single bytes.
- `Hex.decode_encode`: bytes written as digits read back.
- `Uuid.parse?_toText`: so does an identifier in its hyphenated form.
-/

namespace TypedWire

/-- A text whose characters are single bytes in UTF-8 is those bytes. -/
theorem Utf8.encode_ofList {cs : List Char} (h : ∀ c ∈ cs, c.utf8Size = 1) :
    encode (String.ofList cs) = cs.map Char.toUInt8 := by
  have hbytes : encode (String.ofList cs) = cs.flatMap String.utf8EncodeChar := by
    show (cs.flatMap String.utf8EncodeChar).toByteArray.data.toList = _
    rw [List.data_toByteArray]
  rw [hbytes]
  clear hbytes
  induction cs with
  | nil => rfl
  | cons c cs ih =>
    obtain ⟨hc, hcs⟩ := List.forall_mem_cons.mp h
    rw [List.flatMap_cons, String.utf8EncodeChar_eq_singleton hc, ih hcs]
    rfl

/-! ## Bytes -/

namespace Hex

/-- A digit that is written is a single byte and reads back. It is neither a brace nor the start of
a name. -/
theorem digit?_digitChar : ∀ n < 16, digit? (Nat.digitChar n).toUInt8 = some n ∧
    (Nat.digitChar n).utf8Size = 1 ∧ (Nat.digitChar n).toUInt8 ≠ 0x7b ∧
      Uuid.lowerByte (Nat.digitChar n).toUInt8 ≠ 0x75 := by
  decide

theorem div_lt (b : UInt8) : b.toNat / 16 < 16 :=
  Nat.div_lt_of_lt_mul b.toNat_lt

theorem mod_lt (b : UInt8) : b.toNat % 16 < 16 :=
  Nat.mod_lt _ (by decide)

/-- The characters of written bytes are digits. -/
theorem exists_digit {bs : Bytes} {c : Char} (h : c ∈ bs.flatMap digits) :
    ∃ n < 16, c = Nat.digitChar n := by
  obtain ⟨b, -, hc⟩ := List.mem_flatMap.mp h
  rcases List.mem_cons.mp hc with rfl | hc
  · exact ⟨_, div_lt b, rfl⟩
  · exact ⟨_, mod_lt b, List.mem_singleton.mp hc⟩

theorem length_flatMap_digits (bs : Bytes) : (bs.flatMap digits).length = 2 * bs.length := by
  induction bs with
  | nil => rfl
  | cons b bs ih =>
    rw [List.flatMap_cons, List.length_append, ih, List.length_cons]
    show 2 + 2 * bs.length = 2 * (bs.length + 1)
    omega

theorem pairs_digits (bs : Bytes) (position : Nat) :
    pairs position ((bs.flatMap digits).map Char.toUInt8) = .ok bs := by
  induction bs generalizing position with
  | nil => rfl
  | cons b bs ih =>
    have hhigh := (digit?_digitChar _ (div_lt b)).1
    have hlow := (digit?_digitChar _ (mod_lt b)).1
    have hbyte : UInt8.ofNat (b.toNat / 16 * 16 + b.toNat % 16) = b := by
      rw [Nat.div_add_mod', UInt8.ofNat_toNat]
    show pairs position ((Nat.digitChar (b.toNat / 16)).toUInt8 ::
      (Nat.digitChar (b.toNat % 16)).toUInt8 :: (bs.flatMap digits).map Char.toUInt8) = _
    rw [pairs, digitAt, hhigh, digitAt, hlow]
    show (do
      let bytes ← pairs (position + 2) ((bs.flatMap digits).map Char.toUInt8)
      return UInt8.ofNat (b.toNat / 16 * 16 + b.toNat % 16) :: bytes) = _
    rw [ih, hbyte]
    rfl

theorem decodeBytes_digits (bs : Bytes) :
    decodeBytes ((bs.flatMap digits).map Char.toUInt8) = .ok bs := by
  rw [decodeBytes, if_pos, pairs_digits]
  rw [List.length_map, length_flatMap_digits]
  exact Nat.mul_mod_right 2 _

/-- Bytes written as digits read back. -/
theorem decode_encode (bs : Bytes) : decode (encode bs) = .ok bs := by
  have hbytes : (encode bs).toUTF8.data.toList = (bs.flatMap digits).map Char.toUInt8 := by
    refine Utf8.encode_ofList fun c hc => ?_
    obtain ⟨n, hn, rfl⟩ := exists_digit hc
    exact (digit?_digitChar n hn).2.1
  rw [decode, hbytes, decodeBytes_digits]

end Hex

/-! ## Identifiers -/

namespace Uuid

/-- Every character of a hyphenated text is a hyphen or one of the text. -/
theorem mem_hyphenate {c : Char} (ns : List Nat) (cs : List Char) (h : c ∈ hyphenate ns cs) :
    c = '-' ∨ c ∈ cs := by
  induction ns, cs using hyphenate.induct with
  | case1 cs => exact .inr h
  | case2 n cs => exact .inr h
  | case3 n ns cs hns ih =>
    rw [hyphenate] at h
    · rcases List.mem_append.mp h with h | h
      · exact .inr (List.mem_of_mem_take h)
      · rcases List.mem_cons.mp h with rfl | h
        · exact .inl rfl
        · exact (ih h).imp_right List.mem_of_mem_drop
    · exact hns

/-- The hyphens between full groups are removed again. -/
theorem ungroup?_hyphenate (ns : List Nat) (cs : List Char) (hns : ns ≠ [])
    (h : cs.length = ns.sum) :
    ungroup? ns ((hyphenate ns cs).map Char.toUInt8) = some (cs.map Char.toUInt8) := by
  induction ns, cs using hyphenate.induct with
  | case1 cs => exact absurd rfl hns
  | case2 n cs =>
    rw [hyphenate, ungroup?, if_pos]
    rw [List.length_map, h]
    rfl
  | case3 n ns cs hmore ih =>
    rw [List.sum_cons] at h
    have hgroup : ((cs.take n).map Char.toUInt8).length = n := by
      rw [List.length_map, List.length_take_of_le (by omega)]
    have hrest := ih hmore (by rw [List.length_drop]; omega)
    rw [hyphenate, List.map_append, List.map_cons, ungroup?, List.drop_left' hgroup,
      List.take_left' hgroup]
    · show ((ungroup? ns _).map _ : Option Bytes) = _
      rw [hrest, Option.map_some, ← List.map_append, List.take_append_drop]
    · exact hmore
    · exact hmore

/-- The hyphenated form of an identifier reads back. -/
theorem parse?_toText (u : Uuid) : parse? u.toText = some u := by
  have hlength : (u.toBytes.flatMap Hex.digits).length = groups.sum := by
    rw [Hex.length_flatMap_digits, length_toBytes]
    rfl
  have hpos : 0 < (u.toBytes.flatMap Hex.digits).length := hlength ▸ (by decide)
  obtain ⟨c, cs, hcs⟩ := List.exists_cons_of_length_pos hpos
  obtain ⟨n, hn, rfl⟩ := Hex.exists_digit (hcs ▸ List.mem_cons_self)
  obtain ⟨-, -, hbrace, hname⟩ := Hex.digit?_digitChar n hn
  have htext : Utf8.encode u.toText =
      (hyphenate groups (u.toBytes.flatMap Hex.digits)).map Char.toUInt8 := by
    rw [toText, Hex.encode, String.toList_ofList]
    refine Utf8.encode_ofList fun c hc => ?_
    rcases mem_hyphenate _ _ hc with rfl | hc
    · decide
    · obtain ⟨n, hn, rfl⟩ := Hex.exists_digit hc
      exact (Hex.digit?_digitChar n hn).2.1
  have hread : ofHyphenated? (Utf8.encode u.toText) = some u := by
    rw [htext, ofHyphenated?, ungroup?_hyphenate groups _ (by decide) hlength, Option.bind_some,
      ofDigits?, Hex.decodeBytes_digits]
    dsimp only
    rw [if_pos (length_toBytes u), ofBytes_toBytes]
  -- the text starts with a digit, so it is neither in braces nor a name
  obtain ⟨rest, hrest⟩ : ∃ rest, Utf8.encode u.toText = (Nat.digitChar n).toUInt8 :: rest := by
    rw [htext, hcs]
    exact ⟨_, rfl⟩
  have hbare : isNamed (Utf8.encode u.toText) = false := by
    rw [hrest, isNamed, List.map_cons]
    show ((0x75 == lowerByte (Nat.digitChar n).toUInt8) && _) = false
    rw [beq_false_of_ne (Ne.symm hname), Bool.false_and]
  have hlong : (Utf8.encode u.toText).length ≠ 32 := by
    have hlen : (u.toBytes.flatMap Hex.digits).length = 32 := hlength
    rw [htext, List.length_map]
    simp [hyphenate, groups, hlen]
  rw [parse?]
  split
  · rename_i inner hinner
    exact absurd (List.cons.inj (hrest.symm.trans hinner)).1 hbrace
  · rw [if_neg (by rw [hbare]; decide), if_neg hlong, hread]


end Uuid

end TypedWire
