import TypedWire.Proofs.Descriptor.Parse

/-!
# Positions of fields

A sparse value sends the positions of its fields in four bytes each.

- `Descriptor.Indexable`: four bytes hold the position of every field of an argument.
- `Descriptor.parse_indexable`: so it is in every type that is read from a stream.
-/

namespace TypedWire.Descriptor

open Grammar

/-- Four bytes hold the position of every field of an argument. A type that was parsed counts its
fields in two bytes. -/
inductive Indexable : Descriptor → Prop
  | node {d : Descriptor} (here : d.kind = .inputShape → d.fields.length ≤ UInt32.size)
      (parts : ∀ f ∈ d.fields, Indexable f.desc) : Indexable d

theorem Indexable.part {d : Descriptor} (h : d.Indexable) {i : Nat} {f : Field Descriptor}
    (hf : d.fields[i]? = some f) : f.desc.Indexable := by
  cases h with
  | node _ parts => exact parts f (List.mem_of_getElem? hf)

theorem Indexable.first {d : Descriptor} {f : Field Descriptor} {rest : List (Field Descriptor)}
    (h : d.Indexable) (hfields : d.fields = f :: rest) : f.desc.Indexable :=
  h.part (i := 0) (by rw [hfields]; rfl)

/-- A stream counts the fields of a type in two bytes. -/
theorem typeAt?_indexable {dialect : Dialect} {stream : List (Node dialect)} (i : Nat)
    {d : Descriptor} (h : typeAt? stream i = some d) : d.Indexable := by
  induction i using Nat.strongRecOn generalizing d with
  | ind i ih =>
    rw [typeAt?] at h
    split at h
    · rename_i id body _
      have htypes := body.mapM_parts h
      have hlen := length_of_mapM htypes
      rw [List.length_map] at hlen
      refine .node (fun _ => ?_) fun f hf => ?_
      · -- two bytes have counted the parts
        have hcount := body.length_parts
        exact Nat.le_of_lt (hlen ▸ Nat.lt_trans hcount (by decide))
      · obtain ⟨p, -, hp⟩ := exists_of_mem_mapM htypes f.desc (List.mem_map_of_mem hf)
        split at hp
        · rename_i hlt
          exact ih _ hlt hp
        · cases hp
    · cases h
    · cases h

/-- The types that are read from streams are no longer than four bytes can count. -/
theorem parse_indexable {dialect : Dialect} {bs : Bytes} {root : Descriptor}
    (h : Descriptor.parse dialect bs = .ok root) : root.Indexable := by
  cases bs with
  | nil =>
    obtain rfl := Except.ok.inj h
    exact .node (fun h => nomatch h) (List.forall_mem_nil _)
  | cons b bs =>
    obtain ⟨stream, -, -, i, hroot, -⟩ := (parse_eq_ok_iff (List.cons_ne_nil b bs)).mp h
    exact typeAt?_indexable i hroot

end TypedWire.Descriptor
