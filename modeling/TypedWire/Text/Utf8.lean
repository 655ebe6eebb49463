import TypedWire.Bytes

/-!
# Texts as bytes

- `Utf8.encode`: the UTF-8 form of a text.
- `Utf8.decode?`: the text that a byte string is the UTF-8 form of, if there is one.
- `Utf8.decode?_eq_some_iff`: reading accepts exactly what writing produces.
-/

namespace TypedWire.Utf8

/-- The UTF-8 form of a text. -/
def encode (s : String) : Bytes :=
  s.toByteArray.data.toList

/-- The text with the given UTF-8 form, if the bytes are one. -/
def decode? (bs : Bytes) : Option String :=
  String.fromUTF8? ⟨bs.toArray⟩

/-- Reading accepts exactly what writing produces. -/
theorem decode?_eq_some_iff {bs : Bytes} {s : String} : decode? bs = some s ↔ bs = encode s := by
  constructor
  · intro h
    simp only [decode?, String.fromUTF8?] at h
    split at h
    · obtain rfl := Option.some.inj h
      rfl
    · exact nomatch h
  · rintro rfl
    have hbytes : (⟨(encode s).toArray⟩ : ByteArray) = s.toByteArray := by
      rw [encode, Array.toArray_toList]
    rw [decode?, hbytes, String.fromUTF8?, dif_pos s.isValidUTF8]
    rfl

/-- A written text reads back. -/
@[simp] theorem decode?_encode (s : String) : decode? (encode s) = some s :=
  decode?_eq_some_iff.mpr rfl

end TypedWire.Utf8
