import TypedWire.Proofs.Shape.Conforms

/-!
# The leaves of a record

A record stands for the slots that are reached through its embedded records: its leaves. A leaf of a
record of the right shape can be read and stored to, which leaves the other leaves as they are.

- `Leaf members path shape`: the path leads to a slot of the shape that is no embedded record.
- `Leaf.eq_of_isPrefix`: no leaf is inside another.
- `Record.slot?_setSlot?`, `Record.slot?_setSlot?_of_apart`: what storing does to the slot
  itself and to a slot that is neither inside nor around it.
- `Leaf.load`, `Leaf.store`: the laws of reading and storing at a leaf.
- `Record.Conforms.ext`: a record is determined by its leaves.
-/

namespace TypedWire

/-- The members of an embedded record, which stands for them. -/
def Member.nested? (m : Member Shape) : Option (List (Member Shape)) :=
  match m.embedded, m.shape with
  | true, .record _ members => some members
  | _, _ => none

theorem Member.nested?_eq_some_iff {m : Member Shape} {inner : List (Member Shape)} :
    m.nested? = some inner ↔ m.embedded = true ∧ ∃ name, m.shape = .record name inner := by
  unfold Member.nested?
  split
  · rename_i members hembedded hshape
    constructor
    · intro h
      obtain rfl := Option.some.inj h
      exact ⟨hembedded, _, hshape⟩
    · rintro ⟨-, name, h⟩
      rw [hshape] at h
      exact congrArg some (Shape.record.inj h).2
  · rename_i hnot
    constructor
    · intro h
      cases h
    · rintro ⟨hembedded, name, h⟩
      exact (hnot _ _ hembedded h).elim

/-- The path leads from a record of the members, through embedded records, to a slot of the shape
that is no embedded record. -/
inductive Leaf : List (Member Shape) → StoragePath → Shape → Prop
  | own {members : List (Member Shape)} {i : Nat} {m : Member Shape} (at_ : members[i]? = some m)
      (plain : m.nested? = none) : Leaf members [i] m.shape
  | inside {members inner : List (Member Shape)} {i : Nat} {m : Member Shape}
      {path : StoragePath} {shape : Shape} (at_ : members[i]? = some m)
      (nested : m.nested? = some inner) (leaf : Leaf inner path shape) :
      Leaf members (i :: path) shape

namespace Leaf

variable {members inner : List (Member Shape)} {path path' : StoragePath} {shape shape' : Shape}

theorem ne_nil (h : Leaf members path shape) : path ≠ [] := by
  cases h <;> exact List.cons_ne_nil _ _

/-- A path leads to one leaf only. -/
theorem unique (h : Leaf members path shape) (h' : Leaf members path shape') : shape = shape' := by
  induction h with
  | own hm _ =>
    cases h' with
    | own hm' _ => rw [Option.some.inj (hm.symm.trans hm')]
    | inside _ _ leaf => exact (leaf.ne_nil rfl).elim
  | inside hm hnested leaf ih =>
    cases h' with
    | own _ _ => exact (leaf.ne_nil rfl).elim
    | inside hm' hnested' leaf' =>
      obtain rfl := Option.some.inj (hm.symm.trans hm')
      obtain rfl := Option.some.inj (hnested.symm.trans hnested')
      exact ih leaf'

/-- No leaf is inside another. -/
theorem eq_of_isPrefix (h : Leaf members path shape) (h' : Leaf members path' shape')
    (hinside : path <+: path') : path = path' := by
  induction h generalizing path' with
  | own hm hplain =>
    cases h' with
    | own hm' _ =>
      obtain ⟨rfl, -⟩ := List.cons_prefix_cons.mp hinside
      rfl
    | inside hm' hnested' _ =>
      -- the longer path would lead into an embedded record
      obtain ⟨rfl, -⟩ := List.cons_prefix_cons.mp hinside
      obtain rfl := Option.some.inj (hm.symm.trans hm')
      cases hplain.symm.trans hnested'
  | inside hm hnested leaf ih =>
    cases h' with
    | own hm' _ =>
      obtain ⟨-, hnil⟩ := List.cons_prefix_cons.mp hinside
      exact (leaf.ne_nil (List.prefix_nil.mp hnil)).elim
    | inside hm' hnested' leaf' =>
      obtain ⟨rfl, hinner⟩ := List.cons_prefix_cons.mp hinside
      obtain rfl := Option.some.inj (hm.symm.trans hm')
      obtain rfl := Option.some.inj (hnested.symm.trans hnested')
      rw [ih leaf' hinner]

end Leaf

/-! ## Reading and storing at leaves -/

namespace Record

theorem slot?_inside {rec inner : Record} {i : Nat} {path : StoragePath}
    (hi : rec[i]? = some (.record inner)) (hne : path ≠ []) :
    slot? rec (i :: path) = slot? inner path := by
  cases path with
  | nil => exact (hne rfl).elim
  | cons j path => simp only [slot?, hi]

theorem setSlot?_inside {rec inner : Record} {i : Nat} {path : StoragePath} {v : Value}
    (hi : rec[i]? = some (.record inner)) (hne : path ≠ []) :
    setSlot? rec v (i :: path) =
      (setSlot? inner v path).map fun inner => rec.set i (.record inner) := by
  cases path with
  | nil => exact (hne rfl).elim
  | cons j path => simp only [setSlot?, hi]

variable {rec rec' : Record} {members : List (Member Shape)}

/-- A slot that is found is one of the record, or one of a record in a slot of it. -/
theorem slot?_cons_eq_some {i : Nat} {path : StoragePath} {v : Value}
    (h : slot? rec (i :: path) = some v) : (path = [] ∧ rec[i]? = some v) ∨
      ∃ inner, path ≠ [] ∧ rec[i]? = some (.record inner) ∧ slot? inner path = some v := by
  cases path with
  | nil => exact .inl ⟨rfl, h⟩
  | cons j path =>
    simp only [slot?] at h
    split at h
    · rename_i inner hinner
      exact .inr ⟨inner, List.cons_ne_nil _ _, hinner, h⟩
    · cases h

/-- Storing replaces a slot of the record, or a record in a slot of it. -/
theorem setSlot?_cons_eq_some {i : Nat} {path : StoragePath} {v : Value}
    (h : setSlot? rec v (i :: path) = some rec') :
    (path = [] ∧ i < rec.length ∧ rec' = rec.set i v) ∨
      ∃ inner inner', path ≠ [] ∧ rec[i]? = some (.record inner) ∧
        setSlot? inner v path = some inner' ∧ rec' = rec.set i (.record inner') := by
  cases path with
  | nil =>
    obtain ⟨hi, rfl⟩ : i < rec.length ∧ rec.set i v = rec' := by simpa [setSlot?] using h
    exact .inl ⟨rfl, hi, rfl⟩
  | cons j path =>
    simp only [setSlot?] at h
    split at h
    · rename_i inner hinner
      obtain ⟨inner', hset, rfl⟩ := Option.map_eq_some_iff.mp h
      exact .inr ⟨inner, inner', List.cons_ne_nil _ _, hinner, hset, rfl⟩
    · cases h

/-- A slot that is found can be stored to. -/
theorem exists_setSlot? {path : StoragePath} {w : Value} (h : slot? rec path = some w) (v : Value) :
    ∃ rec', setSlot? rec v path = some rec' := by
  induction path generalizing rec with
  | nil => cases h
  | cons i path ih =>
    rcases slot?_cons_eq_some h with ⟨rfl, hi⟩ | ⟨inner, hne, hi, hinner⟩
    · exact ⟨rec.set i v, if_pos (List.getElem?_eq_some_iff.mp hi).1⟩
    · obtain ⟨inner', hset⟩ := ih hinner
      exact ⟨rec.set i (.record inner'), by rw [setSlot?_inside hi hne, hset, Option.map_some]⟩

/-- What is stored is found again. -/
theorem slot?_setSlot? {path : StoragePath} {v : Value} (h : setSlot? rec v path = some rec') :
    slot? rec' path = some v := by
  induction path generalizing rec rec' with
  | nil => cases h
  | cons i path ih =>
    rcases setSlot?_cons_eq_some h with ⟨rfl, hi, rfl⟩ | ⟨inner, inner', hne, hi, hset, rfl⟩
    · exact List.getElem?_set_self hi
    · have hinner : (rec.set i (.record inner'))[i]? = some (.record inner') :=
        List.getElem?_set_self (List.getElem?_eq_some_iff.mp hi).1
      rw [slot?_inside hinner hne, ih hset]

/-- The slots of two paths that start at different positions have nothing to do with each other. -/
theorem slot?_set_of_ne {i j : Nat} (hne : j ≠ i) (v : Value) (path : StoragePath) :
    slot? (rec.set i v) (j :: path) = slot? rec (j :: path) := by
  have hj : (rec.set i v)[j]? = rec[j]? := List.getElem?_set_ne (Ne.symm hne)
  cases path with
  | nil => exact hj
  | cons k path => simp only [slot?, hj]

/-- A slot that is neither inside nor around the one that is stored to stays as it is. -/
theorem slot?_setSlot?_of_apart {path path' : StoragePath} {v : Value}
    (h : setSlot? rec v path = some rec') (hin : ¬path <+: path') (haround : ¬path' <+: path) :
    slot? rec' path' = slot? rec path' := by
  induction path generalizing rec rec' path' with
  | nil => cases h
  | cons i path ih =>
    cases path' with
    | nil => exact (haround List.nil_prefix).elim
    | cons j path' =>
      rcases setSlot?_cons_eq_some h with ⟨rfl, hi, rfl⟩ | ⟨inner, inner', hne, hi, hset, rfl⟩
      · refine slot?_set_of_ne ?_ _ _
        rintro rfl
        exact hin (List.cons_prefix_cons.mpr ⟨rfl, List.nil_prefix⟩)
      · by_cases hij : j = i
        · -- both paths go on in the record that is stored into
          subst hij
          have hin' : ¬path <+: path' := fun h => hin (List.cons_prefix_cons.mpr ⟨rfl, h⟩)
          have haround' : ¬path' <+: path := fun h =>
            haround (List.cons_prefix_cons.mpr ⟨rfl, h⟩)
          have hne' : path' ≠ [] := by
            rintro rfl
            exact haround' List.nil_prefix
          have hinner : (rec.set j (.record inner'))[j]? = some (.record inner') :=
            List.getElem?_set_self (List.getElem?_eq_some_iff.mp hi).1
          rw [slot?_inside hinner hne', slot?_inside hi hne', ih hset hin' haround']
        · exact slot?_set_of_ne hij _ _

/-- There is a value for every member. -/
theorem Conforms.at_ (h : rec.Conforms members) {i : Nat} {m : Member Shape}
    (hm : members[i]? = some m) : ∃ v, rec[i]? = some v ∧ v.Conforms m.shape := by
  have hi : i < rec.length := by
    rw [h.length]
    exact (List.getElem?_eq_some_iff.mp hm).1
  exact ⟨rec[i], List.getElem?_eq_getElem hi, h.slot i _ m (List.getElem?_eq_getElem hi) hm⟩

/-- In the place of an embedded record there is a record of its members. -/
theorem Conforms.nested (h : rec.Conforms members) {i : Nat} {m : Member Shape}
    {inner : List (Member Shape)} (hm : members[i]? = some m) (hnested : m.nested? = some inner) :
    ∃ sub, rec[i]? = some (.record sub) ∧ Conforms sub inner := by
  obtain ⟨-, name, hshape⟩ := Member.nested?_eq_some_iff.mp hnested
  obtain ⟨v, hv, hconforms⟩ := h.at_ hm
  rw [hshape] at hconforms
  obtain ⟨sub, rfl, hsub⟩ := Value.conforms_record_iff.mp hconforms
  exact ⟨sub, hv, hsub⟩

/-- A value of the member's shape can take the place of another. -/
theorem Conforms.set (h : rec.Conforms members) {i : Nat} {m : Member Shape} {v : Value}
    (hm : members[i]? = some m) (hv : v.Conforms m.shape) : Conforms (rec.set i v) members where
  length := by rw [List.length_set, h.length]
  slot j w n hw hn := by
    by_cases hij : i = j
    · subst hij
      obtain ⟨_, hi, -⟩ := h.at_ hm
      rw [List.getElem?_set_self (List.getElem?_eq_some_iff.mp hi).1] at hw
      obtain rfl := Option.some.inj hw
      obtain rfl := Option.some.inj (hm.symm.trans hn)
      exact hv
    · rw [List.getElem?_set_ne hij] at hw
      exact h.slot j w n hw hn

/-- What storing `v` at a path does to a record of the members. -/
structure Stored (members : List (Member Shape)) (path : StoragePath) (v : Value)
    (rec rec' : Record) : Prop where
  conforms : rec'.Conforms members
  here : rec'.slot? path = some v
  elsewhere : ∀ {path' : StoragePath} {shape : Shape}, Leaf members path' shape → path' ≠ path →
    rec'.slot? path' = rec.slot? path'

end Record

namespace Leaf

variable {members : List (Member Shape)} {path : StoragePath} {shape : Shape}

/-- At a leaf there is a value of its shape. -/
theorem load (h : Leaf members path shape) : ∀ {rec : Record}, rec.Conforms members →
    ∃ v, rec.slot? path = some v ∧ v.Conforms shape := by
  induction h with
  | own hm _ => exact fun hrec => hrec.at_ hm
  | inside hm hnested leaf ih =>
    intro rec hrec
    obtain ⟨sub, hsub, hconforms⟩ := hrec.nested hm hnested
    rw [Record.slot?_inside hsub leaf.ne_nil]
    exact ih hconforms

/-- Fresh storage holds the default of a leaf's shape there. -/
theorem slot?_default (h : Leaf members path shape) :
    (Shape.defaultRecord members).slot? path = some shape.default := by
  have hdefault : ∀ {members : List (Member Shape)} {i : Nat} {m : Member Shape},
      members[i]? = some m → (Shape.defaultRecord members)[i]? = some m.shape.default := by
    intro members i m hm
    rw [Shape.defaultRecord_eq_map, List.getElem?_map, hm, Option.map_some]
  induction h with
  | own hm _ => exact hdefault hm
  | @inside members inner i m path shape hm hnested leaf ih =>
    obtain ⟨-, name, hshape⟩ := Member.nested?_eq_some_iff.mp hnested
    have hi : (Shape.defaultRecord members)[i]? = some (.record (Shape.defaultRecord inner)) := by
      rw [hdefault hm, hshape, Shape.default]
    rw [Record.slot?_inside hi leaf.ne_nil, ih]

/-- A record of the members stays one when a value of its shape is stored at a leaf. -/
theorem conforms_setSlot? {v : Value} (h : Leaf members path shape) (hv : v.Conforms shape) :
    ∀ {rec rec' : Record}, rec.Conforms members → rec.setSlot? v path = some rec' →
      rec'.Conforms members := by
  induction h with
  | own hm _ =>
    intro rec rec' hrec hset
    rcases Record.setSlot?_cons_eq_some hset with ⟨-, -, rfl⟩ | ⟨_, _, hne, _⟩
    · exact hrec.set hm hv
    · exact (hne rfl).elim
  | inside hm hnested leaf ih =>
    intro rec rec' hrec hset
    obtain ⟨-, name, hshape⟩ := Member.nested?_eq_some_iff.mp hnested
    obtain ⟨sub, hsub, hconforms⟩ := hrec.nested hm hnested
    rcases Record.setSlot?_cons_eq_some hset with ⟨hnil, _⟩ | ⟨inner, inner', -, hi, hset', rfl⟩
    · exact (leaf.ne_nil hnil).elim
    · obtain rfl := Value.record.inj (Option.some.inj (hsub.symm.trans hi))
      refine hrec.set hm ?_
      rw [hshape]
      exact Value.conforms_record_iff.mpr ⟨inner', rfl, ih hv hconforms hset'⟩

/-- Any value can be stored at a leaf, and is found there while the other leaves stay as they
are. -/
theorem setSlot? (h : Leaf members path shape) {rec : Record} (hrec : rec.Conforms members)
    (v : Value) : ∃ rec', rec.setSlot? v path = some rec' ∧ rec'.slot? path = some v ∧
      ∀ {path' : StoragePath} {shape' : Shape}, Leaf members path' shape' → path' ≠ path →
        rec'.slot? path' = rec.slot? path' := by
  obtain ⟨w, hw, -⟩ := h.load hrec
  obtain ⟨rec', hset⟩ := Record.exists_setSlot? hw v
  refine ⟨rec', hset, Record.slot?_setSlot? hset, fun hleaf hne => ?_⟩
  exact Record.slot?_setSlot?_of_apart hset (fun hin => hne (h.eq_of_isPrefix hleaf hin).symm)
    fun haround => hne (hleaf.eq_of_isPrefix h haround)

/-- A value of its shape can be stored at a leaf. -/
theorem store {v : Value} (h : Leaf members path shape) (hv : v.Conforms shape) {rec : Record}
    (hrec : rec.Conforms members) :
    ∃ rec', rec.setSlot? v path = some rec' ∧ Record.Stored members path v rec rec' := by
  obtain ⟨rec', hset, hhere, helsewhere⟩ := h.setSlot? hrec v
  exact ⟨rec', hset, h.conforms_setSlot? hv hrec hset, hhere, helsewhere⟩

end Leaf

/-! ## From the leaves to the record -/

/-- Induction over members and the members of the records embedded in them. -/
theorem members_induction {P : List (Member Shape) → Prop}
    (step : ∀ members, (∀ (i : Nat) m inner, members[i]? = some m → m.nested? = some inner →
      P inner) → P members) (members : List (Member Shape)) : P members :=
  step members fun _ m inner hm hnested =>
    -- an embedded record has fewer members to come than the record around it
    have hsize : sizeOf inner < sizeOf members := by
      obtain ⟨-, name, hshape⟩ := Member.nested?_eq_some_iff.mp hnested
      have hmem := List.sizeOf_lt_of_mem (List.mem_of_getElem? hm)
      obtain ⟨_, _, shape, _⟩ := m
      obtain rfl : shape = .record name inner := hshape
      simp only [Member.mk.sizeOf_spec, Shape.record.sizeOf_spec] at hmem
      omega
    members_induction step inner
termination_by sizeOf members

/-- A record is determined by its leaves. -/
theorem Record.Conforms.ext {members : List (Member Shape)} : ∀ {rec rec' : Record},
    rec.Conforms members → rec'.Conforms members →
      (∀ path shape, Leaf members path shape → rec.slot? path = rec'.slot? path) → rec = rec' := by
  induction members using members_induction with
  | step members ih =>
    intro rec rec' hrec hrec' hleaves
    refine List.ext_getElem? fun i => ?_
    cases hm : members[i]? with
    | none =>
      have hlen := List.getElem?_eq_none_iff.mp hm
      rw [List.getElem?_eq_none (by rw [hrec.length]; exact hlen),
        List.getElem?_eq_none (by rw [hrec'.length]; exact hlen)]
    | some m =>
      cases hnested : m.nested? with
      | none => exact hleaves [i] _ (.own hm hnested)
      | some inner =>
        obtain ⟨sub, hsub, hconforms⟩ := hrec.nested hm hnested
        obtain ⟨sub', hsub', hconforms'⟩ := hrec'.nested hm hnested
        -- the leaves of an embedded record are leaves of the whole
        have heq : sub = sub' := by
          refine ih i m inner hm hnested hconforms hconforms' fun path shape hleaf => ?_
          have h := hleaves (i :: path) shape (.inside hm hnested hleaf)
          rwa [Record.slot?_inside hsub hleaf.ne_nil, Record.slot?_inside hsub' hleaf.ne_nil] at h
        rw [hsub, hsub', heq]

end TypedWire
