import TypedWire.Proofs.Binding.Binds

/-!
# Parts of types and of codecs

- `Descriptor.parts_induction`: induction from the parts of a type to the type.
- `Descriptor.Everywhere P d`: `P` holds of the type and of the types of all its parts.
- `Codec.Part through part codec`: `part` is the codec, or that of a part of its values; `through`
  says which fields of records may be passed on the way.
- `Descriptor.Binds.inner`, `Descriptor.Binds.part`: a part of a bound codec is bound as well.
-/

namespace TypedWire

/-- What passes from the parts of each type to the type holds of all types. -/
theorem Descriptor.parts_induction {P : Descriptor → Prop}
    (step : ∀ d : Descriptor, (∀ f ∈ d.fields, P f.desc) → P d) (d : Descriptor) : P d :=
  step d fun f _hf => parts_induction step f.desc
termination_by sizeOf d
decreasing_by
  have hmem := List.sizeOf_lt_of_mem _hf
  obtain ⟨kind, id, fields, name, schemaDefined, ancestors, op⟩ := d
  obtain ⟨fieldName, desc, required, union, flags⟩ := f
  simp only [Field.mk.sizeOf_spec] at hmem
  simp only [Descriptor.mk.sizeOf_spec]
  omega

/-- `P` holds of the type and of the types of all its parts. -/
inductive Descriptor.Everywhere (P : Descriptor → Prop) : Descriptor → Prop
  | node {d : Descriptor} (here : P d) (parts : ∀ f ∈ d.fields, Everywhere P f.desc) :
      Everywhere P d

namespace Descriptor.Everywhere

variable {P : Descriptor → Prop} {d : Descriptor}

theorem here (h : Everywhere P d) : P d := by
  cases h with
  | node here _ => exact here

theorem part (h : Everywhere P d) {f : Field Descriptor} (hf : f ∈ d.fields) :
    Everywhere P f.desc := by
  cases h with
  | node _ parts => exact parts f hf

theorem first (h : Everywhere P d) {f : Field Descriptor} {rest : List (Field Descriptor)}
    (hfields : d.fields = f :: rest) : Everywhere P f.desc :=
  h.part (by rw [hfields]; exact List.mem_cons_self)

end Descriptor.Everywhere

namespace Codec

/-- `part` is the codec or that of a part of its values. A record leads to the fields with slots
that may be passed. -/
inductive Part (through : List (BoundField Codec) → Nat → Prop) (part : Codec) : Codec → Prop
  | whole : Part through part part
  | array {id : Uuid} {element : Codec} (h : Part through part element) :
      Part through part (.array id element)
  | set {id : Uuid} {element : Codec} (h : Part through part element) :
      Part through part (.set id element)
  | tuple {id : Uuid} {elements : List Codec} {element : Codec} (mem : element ∈ elements)
      (h : Part through part element) : Part through part (.tuple id elements)
  | record {id : Uuid} {layout : RecordLayout} {fields : List (BoundField Codec)}
      {template : Record} {i : Nat} {b : BoundField Codec} {path : StoragePath} {codec : Codec}
      (at_ : fields[i]? = some b) (target : b.target = .slot path codec) (passes : through fields i)
      (h : Part through part codec) : Part through part (.record id layout fields template)
  | range {id : Uuid} {element : Codec} (h : Part through part element) :
      Part through part (.range id element)
  | multirange {id : Uuid} {element : Codec} (h : Part through part element) :
      Part through part (.multirange id element)

/-- `part` is the codec or that of any part of its values. -/
def Within (part codec : Codec) : Prop := Part (fun _ _ => True) part codec

/-- No other field has the name of the field at a position. -/
def OnlyName (fields : List (BoundField Codec)) (i : Nat) : Prop :=
  ∀ j, fields[j]?.map BoundField.name = fields[i]?.map BoundField.name → j = i

/-- `part` is the codec or that of a part of its values, and no record on the way has another field
of the name that leads to it. -/
def OnlyWithin (part codec : Codec) : Prop := Part OnlyName part codec

end Codec

/-! ## The parts of bound codecs -/

/-- The codec of the values that arrays, sets and ranges are made of. -/
def Codec.inner? : Codec → Option Codec
  | .array _ element | .set _ element | .range _ element | .multirange _ element => some element
  | _ => none

/-- The shape of the values that arrays, sets and ranges are made of. -/
def Shape.inner? : Shape → Option Shape
  | .array element | .set element | .range element | .multirange element => some element
  | _ => none

/-- The codec of the values that others are made of binds the first part of the type. -/
theorem Descriptor.Binds.inner {d : Descriptor} {shape : Shape} {codec element : Codec}
    (h : Binds d shape codec) (hcodec : codec.inner? = some element) :
    ∃ f rest inner, d.fields = f :: rest ∧ shape.inner? = some inner ∧
      Binds f.desc inner element := by
  cases h with
  | array _ fields part | set _ fields part | setAsArray _ fields part | range _ fields _ part
  | multirange _ fields _ part =>
    obtain rfl := Option.some.inj hcodec
    exact ⟨_, _, _, fields, rfl, part⟩
  | _ => cases hcodec

/-- A part of a bound codec binds a type to a shape, and what holds everywhere in the whole type
holds everywhere in that one. -/
theorem Descriptor.Binds.part {d : Descriptor} {shape : Shape} {part codec : Codec}
    (h : Binds d shape codec) (hpart : part.Within codec) :
    ∃ d' shape', Binds d' shape' part ∧ ∀ P, d.Everywhere P → d'.Everywhere P := by
  induction hpart generalizing d shape with
  | whole => exact ⟨d, shape, h, fun P hP => hP⟩
  | array _ ih | set _ ih | range _ ih | multirange _ ih =>
    obtain ⟨f, rest, inner, fields, -, element⟩ := h.inner rfl
    obtain ⟨d', shape', hbinds, hall⟩ := ih element
    exact ⟨d', shape', hbinds, fun P hP => hall P (hP.first fields)⟩
  | tuple mem _ ih =>
    cases h with
    | tuple _ arity length _ items =>
      obtain ⟨i, hi⟩ := List.mem_iff_getElem?.mp mem
      obtain ⟨f, inner, hf, hinner⟩ := exists_item arity length hi
      obtain ⟨d', shape', hbinds, hall⟩ := ih (items i f inner _ hf hinner hi)
      exact ⟨d', shape', hbinds, fun P hP => hall P (hP.part (List.mem_of_getElem? hf))⟩
  | record at_ target _ _ ih =>
    cases h with
    | record _ _ length fields codecs =>
      obtain ⟨f, inner, hf, hresolve, -⟩ := resolves_at length fields at_ target
      obtain ⟨d', shape', hbinds, hall⟩ := ih (codecs _ f _ _ inner _ hf at_ target hresolve)
      exact ⟨d', shape', hbinds, fun P hP => hall P (hP.part (List.mem_of_getElem? hf))⟩

end TypedWire
