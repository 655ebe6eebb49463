import TypedWire.Proofs.Shape.Leaf

/-!
# Names lead to leaves

A field of the wire goes to a member with its name, its own or one of an embedded record. Of several
members with the name it goes to the first: a record's own members come before those of its embedded
records, and these in the order of the members.

- `NamedLeaf wireName members path shape`: the path leads to a member with the name.
- `StoragePath.Before`: the order in which members are looked for.
- `FirstLeaf`: the first of the members with a name.
- `NamedLeaf.of_resolve?`: the slot of a name is a leaf, which has that name and no other.
- `Shape.resolution`: a name resolves to the first member that has it, and the slots of different
  names have nothing to do with each other.
-/

namespace TypedWire

/-! ## Members with a name -/

/-- The path leads, through embedded records, to a slot of the shape that is a member of its own
with the wire name. -/
inductive NamedLeaf (wireName : String) : List (Member Shape) → StoragePath → Shape → Prop
  | own {members : List (Member Shape)} {i : Nat} {m : Member Shape} (at_ : members[i]? = some m)
      (own : m.embedded = false) (name : m.wireName = wireName) :
      NamedLeaf wireName members [i] m.shape
  | inside {members inner : List (Member Shape)} {i : Nat} {m : Member Shape}
      {path : StoragePath} {shape : Shape} (at_ : members[i]? = some m)
      (nested : m.nested? = some inner) (leaf : NamedLeaf wireName inner path shape) :
      NamedLeaf wireName members (i :: path) shape

namespace NamedLeaf

variable {wireName wireName' : String} {members : List (Member Shape)} {path : StoragePath}
  {shape shape' : Shape}

/-- A member with a name is a leaf. -/
theorem leaf (h : NamedLeaf wireName members path shape) : Leaf members path shape := by
  induction h with
  | @own members i m hm hown _ =>
    refine .own hm ?_
    cases hnested : m.nested? with
    | none => rfl
    | some inner =>
      rw [(Member.nested?_eq_some_iff.mp hnested).1] at hown
      cases hown
  | inside hm hnested _ ih => exact .inside hm hnested ih

/-- A leaf has one name only. -/
theorem name_unique (h : NamedLeaf wireName members path shape)
    (h' : NamedLeaf wireName' members path shape') : wireName = wireName' := by
  induction h with
  | own hm _ hname =>
    cases h' with
    | own hm' _ hname' =>
      obtain rfl := Option.some.inj (hm.symm.trans hm')
      exact hname.symm.trans hname'
    | inside _ _ inner => exact (inner.leaf.ne_nil rfl).elim
  | inside hm hnested inner ih =>
    cases h' with
    | own _ _ _ => exact (inner.leaf.ne_nil rfl).elim
    | inside hm' hnested' inner' =>
      obtain rfl := Option.some.inj (hm.symm.trans hm')
      obtain rfl := Option.some.inj (hnested.symm.trans hnested')
      exact ih inner'

end NamedLeaf

/-! ## The order of the members -/

/-- The slot at the first path is looked at before the one at the second. -/
inductive StoragePath.Before : StoragePath → StoragePath → Prop
  /-- The own members of a record come in their order. -/
  | own {i j : Nat} (lt : i < j) : Before [i] [j]
  /-- They come before all that is inside its embedded records. -/
  | outside {i j k : Nat} {rest : StoragePath} : Before [i] (j :: k :: rest)
  /-- The embedded records come in the order of the members. -/
  | earlier {i j k l : Nat} {rest rest' : StoragePath} (lt : i < j) :
      Before (i :: k :: rest) (j :: l :: rest')
  /-- Inside an embedded record the order is that of the record. -/
  | inside {i : Nat} {rest rest' : StoragePath} (h : Before rest rest') :
      Before (i :: rest) (i :: rest')

theorem StoragePath.Before.asymm {path path' : StoragePath} (h : Before path path') :
    ¬Before path' path := by
  induction h with
  | own hlt =>
    rintro (hlt' | _ | _ | hnil)
    · omega
    · cases hnil
  | outside =>
    rintro (_ | _ | _ | hnil)
    cases hnil
  | earlier hlt =>
    rintro (_ | _ | hlt' | _)
    · omega
    · omega
  | inside hrest ih =>
    intro h'
    cases h' with
    | own hlt => omega
    | outside => cases hrest
    | earlier hlt => omega
    | inside hrest' => exact ih hrest'

/-- The path leads to a slot of the shape that is the first one with the wire name. -/
structure FirstLeaf (wireName : String) (members : List (Member Shape)) (path : StoragePath)
    (shape : Shape) : Prop where
  named : NamedLeaf wireName members path shape
  first : ∀ {path' : StoragePath} {shape' : Shape}, NamedLeaf wireName members path' shape' →
    path' = path ∨ path.Before path'

/-- There is only one first slot with a name. -/
theorem FirstLeaf.unique {wireName : String} {members : List (Member Shape)}
    {path path' : StoragePath} {shape shape' : Shape} (h : FirstLeaf wireName members path shape)
    (h' : FirstLeaf wireName members path' shape') : path = path' ∧ shape = shape' := by
  have hpath : path = path' := by
    rcases h.first h'.named with heq | hbefore
    · exact heq.symm
    · rcases h'.first h.named with heq | hbefore'
      · exact heq
      · exact (hbefore.asymm hbefore').elim
  subst hpath
  exact ⟨rfl, h.named.leaf.unique h'.named.leaf⟩

/-! ## The two searches -/

namespace Shape

variable {wireName : String} {members : List (Member Shape)} {i : Nat} {path : StoragePath}
  {shape : Shape}

theorem ownMember?_eq_none_iff : ownMember? wireName i members = none ↔
    ∀ m ∈ members, m.embedded = false → m.wireName ≠ wireName := by
  induction members generalizing i with
  | nil => exact ⟨fun _ => List.forall_mem_nil _, fun _ => rfl⟩
  | cons m members ih =>
    rw [ownMember?, List.forall_mem_cons, ← ih]
    split
    · rename_i hown
      exact ⟨nofun, fun h => (h.1 (by simpa using hown.1) hown.2).elim⟩
    · rename_i hother
      exact ⟨fun h => ⟨fun hown hname => hother ⟨by simpa using hown, hname⟩, h⟩, And.right⟩

/-- The own member that is found is the first one with the name. -/
theorem ownMember?_eq_some (h : ownMember? wireName i members = some (path, shape)) :
    ∃ k m, path = [i + k] ∧ shape = m.shape ∧ members[k]? = some m ∧ m.embedded = false ∧
      m.wireName = wireName ∧ ∀ (j : Nat) m', j < k → members[j]? = some m' →
        m'.embedded = false → m'.wireName ≠ wireName := by
  induction members generalizing i with
  | nil => cases h
  | cons m members ih =>
    rw [ownMember?] at h
    split at h
    · rename_i hown
      obtain ⟨rfl, rfl⟩ := Prod.mk.inj (Option.some.inj h)
      exact ⟨0, m, rfl, rfl, rfl, by simpa using hown.1, hown.2, fun j _ hj => by omega⟩
    · rename_i hother
      obtain ⟨k, found, rfl, rfl, hfound, hown, hname, hfirst⟩ := ih h
      refine ⟨k + 1, found, ?_, rfl, hfound, hown, hname, ?_⟩
      · rw [Nat.add_right_comm, Nat.add_assoc]
      · rintro (_ | j) m' hj hm'
        · obtain rfl := Option.some.inj hm'
          exact fun hown' hname' => hother ⟨by simpa using hown', hname'⟩
        · exact hfirst j m' (Nat.lt_of_succ_lt_succ hj) hm'

/-- An embedded record is searched like a record of its own, behind its position. -/
theorem firstEmbedded?_cons (m : Member Shape) : firstEmbedded? wireName i (m :: members) =
    (m.nested?.bind fun inner => (resolve? inner wireName).map fun (path, shape) =>
      (i :: path, shape)).or (firstEmbedded? wireName (i + 1) members) := by
  obtain ⟨name, wireAlias, s, embedded⟩ := m
  rw [firstEmbedded?]
  cases embedded with
  | false => rfl
  | true => cases s <;> rfl

theorem firstEmbedded?_eq_none_iff : firstEmbedded? wireName i members = none ↔
    ∀ m ∈ members, ∀ inner, m.nested? = some inner → resolve? inner wireName = none := by
  induction members generalizing i with
  | nil =>
    rw [firstEmbedded?]
    exact ⟨fun _ => List.forall_mem_nil _, fun _ => rfl⟩
  | cons m members ih =>
    rw [firstEmbedded?_cons, Option.or_eq_none_iff, ih, List.forall_mem_cons,
      Option.bind_eq_none_iff]
    simp only [Option.map_eq_none_iff]

/-- The embedded record that a name is found in is the first one that it is found in. -/
theorem firstEmbedded?_eq_some (h : firstEmbedded? wireName i members = some (path, shape)) :
    ∃ k m inner path', path = (i + k) :: path' ∧ members[k]? = some m ∧ m.nested? = some inner ∧
      resolve? inner wireName = some (path', shape) ∧
        ∀ (j : Nat) m' inner', j < k → members[j]? = some m' → m'.nested? = some inner' →
          resolve? inner' wireName = none := by
  induction members generalizing i with
  | nil =>
    rw [firstEmbedded?] at h
    cases h
  | cons m members ih =>
    rw [firstEmbedded?_cons] at h
    rcases Option.or_eq_some_iff.mp h with hhere | ⟨hnone, hlater⟩
    · obtain ⟨inner, hnested, hfound⟩ := Option.bind_eq_some_iff.mp hhere
      obtain ⟨⟨path', shape'⟩, hresolve, heq⟩ := Option.map_eq_some_iff.mp hfound
      obtain ⟨rfl, rfl⟩ := Prod.mk.inj heq
      exact ⟨0, m, inner, path', rfl, rfl, hnested, hresolve, fun j _ _ hj => by omega⟩
    · obtain ⟨k, found, inner, path', rfl, hfound, hnested, hresolve, hfirst⟩ := ih hlater
      refine ⟨k + 1, found, inner, path', ?_, hfound, hnested, hresolve, ?_⟩
      · rw [Nat.add_right_comm, Nat.add_assoc]
      · rintro (_ | j) m' inner' hj hm' hnested'
        · obtain rfl := Option.some.inj hm'
          exact Option.map_eq_none_iff.mp (Option.bind_eq_none_iff.mp hnone inner' hnested')
        · exact hfirst j m' inner' (Nat.lt_of_succ_lt_succ hj) hm' hnested'

end Shape

/-! ## Resolving a name -/

section

variable {wireName : String} {members : List (Member Shape)} {path : StoragePath} {shape : Shape}

/-- A name that some member has is resolved. -/
theorem NamedLeaf.resolve?_ne_none (h : NamedLeaf wireName members path shape) :
    Shape.resolve? members wireName ≠ none := by
  induction h with
  | own hm hown hname =>
    intro hnone
    have hother := Shape.ownMember?_eq_none_iff.mp (Option.or_eq_none_iff.mp hnone).1
    exact hother _ (List.mem_of_getElem? hm) hown hname
  | inside hm hnested _ ih =>
    intro hnone
    have hother := Shape.firstEmbedded?_eq_none_iff.mp (Option.or_eq_none_iff.mp hnone).2
    exact ih (hother _ (List.mem_of_getElem? hm) _ hnested)

/-- A name is resolved to the first member that has it. -/
theorem FirstLeaf.of_resolve? (h : Shape.resolve? members wireName = some (path, shape)) :
    FirstLeaf wireName members path shape := by
  induction members using members_induction generalizing path shape with
  | step members ih =>
    rcases Option.or_eq_some_iff.mp h with hown | ⟨hnone, hembedded⟩
    · obtain ⟨k, m, rfl, rfl, hm, hown, hname, hearlier⟩ := Shape.ownMember?_eq_some hown
      rw [Nat.zero_add]
      refine ⟨.own hm hown hname, fun {path' shape'} h' => ?_⟩
      cases h' with
      | @own _ j m' hm' hown' hname' =>
        rcases Nat.lt_trichotomy j k with hlt | rfl | hgt
        · exact (hearlier j m' hlt hm' hown' hname').elim
        · exact .inl rfl
        · exact .inr (.own hgt)
      | inside hm' hnested' inner =>
        obtain ⟨j, rest, rfl⟩ := List.exists_cons_of_ne_nil inner.leaf.ne_nil
        exact .inr .outside
    · obtain ⟨k, m, inner, path, rfl, hm, hnested, hresolve, hearlier⟩ :=
        Shape.firstEmbedded?_eq_some hembedded
      have hinner := ih k m inner hm hnested hresolve
      rw [Nat.zero_add]
      refine ⟨.inside hm hnested hinner.named, fun {path' shape'} h' => ?_⟩
      cases h' with
      | own hm' hown' hname' =>
        have hother := Shape.ownMember?_eq_none_iff.mp hnone
        exact (hother _ (List.mem_of_getElem? hm') hown' hname').elim
      | @inside _ inner' j m' rest _ hm' hnested' leaf =>
        rcases Nat.lt_trichotomy j k with hlt | rfl | hgt
        · exact (leaf.resolve?_ne_none (hearlier j m' inner' hlt hm' hnested')).elim
        · obtain rfl := Option.some.inj (hm.symm.trans hm')
          obtain rfl := Option.some.inj (hnested.symm.trans hnested')
          rcases hinner.first leaf with rfl | hbefore
          · exact .inl rfl
          · exact .inr (.inside hbefore)
        · obtain ⟨l, path, rfl⟩ := List.exists_cons_of_ne_nil hinner.named.leaf.ne_nil
          obtain ⟨l', rest, rfl⟩ := List.exists_cons_of_ne_nil leaf.leaf.ne_nil
          exact .inr (.earlier hgt)

/-- The slot that takes a field of the wire is a member with the name of the field. -/
theorem NamedLeaf.of_resolve? (h : Shape.resolve? members wireName = some (path, shape)) :
    NamedLeaf wireName members path shape :=
  (FirstLeaf.of_resolve? h).named

/-- The slot that takes a field of the wire is a leaf. -/
theorem Leaf.of_resolve? (h : Shape.resolve? members wireName = some (path, shape)) :
    Leaf members path shape :=
  (NamedLeaf.of_resolve? h).leaf

/-- Fields with different names go to different slots. -/
theorem Shape.resolve?_inj {name name' : String} {shape' : Shape}
    (h : resolve? members name = some (path, shape))
    (h' : resolve? members name' = some (path, shape')) : name = name' :=
  (NamedLeaf.of_resolve? h).name_unique (.of_resolve? h')

theorem Shape.resolve?_eq_none_iff : resolve? members wireName = none ↔
    ∀ path shape, ¬NamedLeaf wireName members path shape := by
  constructor
  · intro hnone path shape h
    exact h.resolve?_ne_none hnone
  · intro h
    cases hresolve : resolve? members wireName with
    | none => rfl
    | some found => exact (h found.1 found.2 (.of_resolve? hresolve)).elim

theorem Shape.resolve?_eq_some_iff :
    resolve? members wireName = some (path, shape) ↔ FirstLeaf wireName members path shape := by
  refine ⟨.of_resolve?, fun h => ?_⟩
  cases hresolve : resolve? members wireName with
  | none => exact (h.named.resolve?_ne_none hresolve).elim
  | some found =>
    obtain ⟨rfl, rfl⟩ := h.unique (.of_resolve? hresolve)
    rfl

end

namespace Shape

/-- What a name comes to in records of some members. -/
structure Resolution (members : List (Member Shape)) (wireName : String) : Prop where
  /-- It comes to nothing exactly if no member with the name can be reached. -/
  none_iff : resolve? members wireName = none ↔
    ∀ path shape, ¬NamedLeaf wireName members path shape
  /-- Otherwise it comes to the first of the members with the name. -/
  some_iff : ∀ path shape,
    resolve? members wireName = some (path, shape) ↔ FirstLeaf wireName members path shape
  /-- The slot of it in fresh storage holds the default of its shape. -/
  fresh : ∀ path shape, resolve? members wireName = some (path, shape) →
    (defaultRecord members).slot? path = some shape.default
  /-- It is neither inside nor around the slot of another name, and storing to it does nothing to
  that one. -/
  apart : ∀ other path shape path' shape', wireName ≠ other →
    resolve? members wireName = some (path, shape) → resolve? members other = some (path', shape') →
      ¬path <+: path' ∧ ¬path' <+: path ∧ ∀ rec : Record, rec.Conforms members → ∀ v,
        ∃ rec' w, rec.setSlot? v path = some rec' ∧ rec'.slot? path = some v ∧
          rec.slot? path' = some w ∧ rec'.slot? path' = some w

/-- A name comes to the first member that has it, and to a slot of its own. -/
theorem resolution (members : List (Member Shape)) (wireName : String) :
    Resolution members wireName where
  none_iff := resolve?_eq_none_iff
  some_iff _ _ := resolve?_eq_some_iff
  fresh _ _ h := (Leaf.of_resolve? h).slot?_default
  apart other path shape path' shape' hother h h' := by
    have hleaf := Leaf.of_resolve? h
    have hleaf' := Leaf.of_resolve? h'
    have hne : path' ≠ path := by
      rintro rfl
      exact hother (resolve?_inj h h')
    refine ⟨fun hin => hne (hleaf.eq_of_isPrefix hleaf' hin).symm,
      fun haround => hne (hleaf'.eq_of_isPrefix hleaf haround), fun rec hrec v => ?_⟩
    obtain ⟨rec', hset, hhere, helsewhere⟩ := hleaf.setSlot? hrec v
    obtain ⟨w, hw, -⟩ := hleaf'.load hrec
    exact ⟨rec', w, hset, hhere, hw, (helsewhere hleaf' hne).trans hw⟩

/-- An own member comes before those of embedded records, wherever it stands. -/
example : resolve? [⟨"key", none, .record "Key" [⟨"id", none, .scalar .int64, false⟩], true⟩,
    ⟨"number", some "id", .scalar .int32, false⟩] "id" = some ([1], .scalar .int32) := by
  decide

end Shape

end TypedWire
