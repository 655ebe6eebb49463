import TypedWire.Proofs.Binding.Suggested
import TypedWire.Proofs.Descriptor.Formed

/-!
# Types that have no values

Inference and binding give up on a type of which there are no values on the wire, whatever the
shape. Among the types that are read from streams these are the objects and the compound types of
the second dialect only: the parts that the others need are there.

- `Descriptor.Valueless`: such a type; `Descriptor.Blocked`: one is among the parts.
- `Descriptor.blocked_of_infer`, `Descriptor.blocked_of_build`: inference and binding give up on
  nothing else.
- `Descriptor.Formed.valueless`: which types that were read have no values.
- `Descriptor.parse_formed`: what is read from streams, and what follows for binding.
-/

namespace TypedWire.Descriptor

/-- There are no values of the type on the wire: it is an object type or a compound type, or it has
not the part that it is made of. -/
def Valueless (d : Descriptor) : Prop :=
  match d.kind with
  | .compound => True
  | .object => d.name.isSome = true
  | .set | .array | .range | .multirange => d.fields = []
  | _ => False

/-- A type of the kind that has no values is the type or among its parts. -/
def Blocked (d : Descriptor) (k : Kind) : Prop :=
  ∃ d', d.Reaches d' ∧ d'.kind = k ∧ d'.Valueless

theorem Blocked.of_part {d : Descriptor} {k : Kind} {f : Field Descriptor} (hf : f ∈ d.fields)
    (h : f.desc.Blocked k) : d.Blocked k := by
  obtain ⟨d', hreaches, hkind, hvalueless⟩ := h
  exact ⟨d', .part hf hreaches, hkind, hvalueless⟩

/-- A type that is made of one part is blocked if it has not the part. -/
theorem Blocked.of_element {d : Descriptor} {k : Kind}
    (hkind : d.kind = .set ∨ d.kind = .array ∨ d.kind = .range ∨ d.kind = .multirange)
    (h : d.fields = [] ∧ BindError.notBindable k = .notBindable d.kind ∨ d.Blocked k) :
    d.Blocked k := by
  rcases h with ⟨hnone, hsame⟩ | hblocked
  · refine ⟨d, .here, (BindError.notBindable.inj hsame).symm, ?_⟩
    rcases hkind with hkind | hkind | hkind | hkind <;> rw [Valueless, hkind] <;> exact hnone
  · exact hblocked

/-! ## Inference -/

theorem inferElement_eq_error {kind : Kind} {fields : List (Field Descriptor)} {e : BindError}
    (h : inferElement kind fields = .error e) :
    fields = [] ∧ e = .notBindable kind ∨ ∃ f ∈ fields, f.desc.infer = .error e := by
  cases fields with
  | nil =>
    rw [inferElement] at h
    exact .inl ⟨rfl, (Except.error.inj h).symm⟩
  | cons f rest =>
    obtain ⟨name, desc, required, union, flags⟩ := f
    rw [inferElement] at h
    exact .inr ⟨_, List.mem_cons_self, h⟩

theorem inferItems_eq_error {fields : List (Field Descriptor)} {e : BindError}
    (h : inferItems fields = .error e) : ∃ f ∈ fields, f.desc.infer = .error e := by
  induction fields with
  | nil =>
    rw [inferItems] at h
    cases h
  | cons f fields ih =>
    obtain ⟨name, desc, required, union, flags⟩ := f
    rw [inferItems] at h
    rcases outcome_bind_eq_error.mp h with hitem | ⟨shape, -, h⟩
    · exact ⟨_, List.mem_cons_self, hitem⟩
    rcases outcome_bind_eq_error.mp h with hrest | ⟨shapes, -, h⟩
    · obtain ⟨f, hf, hinfer⟩ := ih hrest
      exact ⟨f, List.mem_cons_of_mem _ hf, hinfer⟩
    · cases h

theorem inferMembers_eq_error {fields : List (Field Descriptor)} {e : BindError}
    (h : inferMembers fields = .error e) : ∃ f ∈ fields, f.desc.infer = .error e := by
  induction fields with
  | nil =>
    rw [inferMembers] at h
    cases h
  | cons f fields ih =>
    obtain ⟨name, desc, required, union, flags⟩ := f
    rw [inferMembers] at h
    have hlater (h : inferMembers fields = .error e) :
        ∃ g ∈ (⟨name, desc, required, union, flags⟩ :: fields : List (Field Descriptor)),
          g.desc.infer = .error e := by
      obtain ⟨g, hg, hinfer⟩ := ih h
      exact ⟨g, List.mem_cons_of_mem _ hg, hinfer⟩
    split at h
    · exact hlater h
    rcases outcome_bind_eq_error.mp h with hmember | ⟨shape, -, h⟩
    · exact ⟨_, List.mem_cons_self, hmember⟩
    rcases outcome_bind_eq_error.mp h with hrest | ⟨members, -, h⟩
    · exact hlater hrest
    · cases h

/-- Inference gives up on a kind only over a type of the kind that has no values. -/
theorem blocked_of_infer {d : Descriptor} {k : Kind} (h : d.infer = .error (.notBindable k)) :
    d.Blocked k := by
  induction d using parts_induction with
  | step d ih =>
    -- the failure comes from a part, which is blocked, or from the type itself
    have hpart : (∃ f ∈ d.fields, f.desc.infer = .error (.notBindable k)) → d.Blocked k := by
      rintro ⟨f, hf, hinfer⟩
      exact .of_part hf (ih f hf hinfer)
    obtain ⟨kind, id, fields, name, schemaDefined, ancestors, op⟩ := d
    rw [infer.eq_def] at h
    cases kind with
    | baseScalar | scalar | enum =>
      obtain ⟨id, he⟩ := scalarBase_eq_error _ (outcome_map_eq_error.mp h)
      cases he
    | array | set | range | multirange =>
      exact .of_element (by simp) ((inferElement_eq_error (outcome_map_eq_error.mp h)).imp_right hpart)
    | tuple => exact hpart (inferItems_eq_error (outcome_map_eq_error.mp h))
    | object =>
      dsimp only at h
      split at h
      · rename_i hname
        obtain rfl := BindError.notBindable.inj (Except.error.inj h)
        exact ⟨_, .here, rfl, hname⟩
      · exact hpart (inferMembers_eq_error (outcome_map_eq_error.mp h))
    | namedTuple | sqlRecord | objectShape | inputShape =>
      exact hpart (inferMembers_eq_error (outcome_map_eq_error.mp h))
    | compound =>
      obtain rfl := BindError.notBindable.inj (Except.error.inj h)
      exact ⟨_, .here, rfl, trivial⟩

/-! ## Binding -/

theorem below_eq_notBindable {way : List String} {e : BindError} {k : Kind}
    (h : BindError.notBindable k = e.below way) : e = .notBindable k := by
  cases e <;> cases h
  rfl

/-- Binding gives up on a kind only over a type of the kind that has no values, whatever the
shape. -/
theorem blocked_of_build {d : Descriptor} {shape : Shape} {k : Kind}
    (h : build [] d shape = .error (.notBindable k)) : d.Blocked k := by
  induction d using parts_induction generalizing shape with
  | step d ih =>
    have hpart {f : Field Descriptor} (hf : f ∈ d.fields) {inner : Shape} {way : List String}
        {e : BindError} (hfails : build [] f.desc inner = .error e)
        (he : BindError.notBindable k = e.below way) : d.Blocked k := by
      rw [below_eq_notBindable he] at hfails
      exact .of_part hf (ih f hf hfails)
    generalize he : BindError.notBindable k = e at h
    cases firstMisfit_of_build h with
    | itself unfit =>
      cases unfit with
      | noBase _ base =>
        obtain ⟨id, rfl⟩ := scalarBase_eq_error d base
        cases he
      | noValues kind =>
        obtain rfl := BindError.notBindable.inj he
        refine ⟨d, .here, rfl, ?_⟩
        rcases kind with hkind | ⟨hkind, hname⟩ <;> rw [Valueless, hkind]
        · trivial
        · exact hname
      | otherShape _ _ => cases he
      | noPart _ kind fields =>
        refine ⟨d, .here, (BindError.notBindable.inj he).symm, ?_⟩
        rcases kind with hkind | hkind | hkind | hkind <;> rw [Valueless, hkind] <;> exact fields
      | noRange _ _ _ ranged =>
        rcases checkRangeElement_eq_error ranged with ⟨id, rfl⟩ | ⟨range, rfl⟩ <;> cases he
    | element _ _ fields _ fails => exact hpart (by rw [fields]; exact List.mem_cons_self) fails he
    | bound _ _ fields _ _ fails =>
      exact .of_part (by rw [fields]; exact List.mem_cons_self)
        (ih _ (by rw [fields]; exact List.mem_cons_self) (he ▸ fails))
    | item _ field _ fails _ =>
      cases fails with
      | within fails => exact hpart (List.mem_of_getElem? field) fails he
      | notScalar _ _ => cases he
    | field _ field fails _ =>
      cases fails with
      | missing _ _ | absence _ _ _ _ => cases he
      | within _ _ _ fails => exact hpart (List.mem_of_getElem? field) fails he

/-! ## Types that were read -/

open Grammar

/-- Among the types that were read, the objects and the compound types of the second dialect have no
values, and all others have the parts that they need. -/
theorem Formed.valueless {dialect : Dialect} {d : Descriptor} (h : d.Formed dialect)
    (hvalueless : d.Valueless) : dialect = .v2 ∧ (d.kind = .object ∨ d.kind = .compound) := by
  have hparts := h.parts
  rw [Valueless] at hvalueless
  cases hkind : d.kind with
  | compound =>
    cases dialect with
    | v1 =>
      have hnone : ∀ tag ∈ Tag.all.take (Tag.count .v1), tag.kind .v1 ≠ .compound := by decide
      obtain ⟨tag, htag, hsame⟩ := h.kind
      exact absurd (hsame.symm.trans hkind) (hnone tag htag)
    | v2 => exact ⟨rfl, .inr rfl⟩
  | object =>
    cases dialect with
    | v1 =>
      rw [hkind, (h.bare rfl).1] at hvalueless
      cases hvalueless
    | v2 => exact ⟨rfl, .inl rfl⟩
  | set | array | range | multirange =>
    rw [hkind] at hvalueless hparts
    obtain ⟨f, hf, -⟩ := hparts
    cases hvalueless.symm.trans hf
  | _ =>
    rw [hkind] at hvalueless
    exact hvalueless.elim

theorem kind_of_blocked {dialect : Dialect} {bs : Bytes} {root : Descriptor} {k : Kind}
    (hparse : Descriptor.parse dialect bs = .ok root) (h : root.Blocked k) :
    dialect = .v2 ∧ (k = .object ∨ k = .compound) := by
  obtain ⟨d, hreaches, rfl, hvalueless⟩ := h
  exact (formed_of_parse hparse hreaches).valueless hvalueless

/-- Wherever one looks in a type that was read from a stream, a type has the parts of its kind and
what its dialect says about it. So inference and binding never give up on a kind in the first
dialect, and in the second only on objects and compound types. -/
theorem parse_formed {dialect : Dialect} {bs : Bytes} {root : Descriptor}
    (h : Descriptor.parse dialect bs = .ok root) :
    (∀ d, root.Reaches d → d.Formed dialect) ∧
      (∀ required k, root.shapeFor required = .error (.notBindable k) →
        dialect = .v2 ∧ (k = .object ∨ k = .compound)) ∧
      ∀ required shape k, root.bind required shape = .error (.notBindable k) →
        dialect = .v2 ∧ (k = .object ∨ k = .compound) := by
  refine ⟨fun d hreaches => formed_of_parse h hreaches, ?_, ?_⟩
  · intro required k herror
    rcases outcome_bind_eq_error.mp herror with hinfer | ⟨shape, -, hok⟩
    · exact kind_of_blocked h (blocked_of_infer hinfer)
    · cases hok
  · intro required shape k herror
    rw [bind_eq] at herror
    split at herror
    · cases herror
    · exact kind_of_blocked h (blocked_of_build herror)

/-- A set of objects: it is read, and there is no shape for it. -/
theorem parse_formed_objects :
    let object : Node .v2 := .type .nil (.objectType ⟨"Planet", by decide⟩ 1)
    let objects : Node .v2 := .type .nil (.set 0)
    let planet : Descriptor := ⟨.object, .nil, [], some "Planet", true, [], none⟩
    let root := ofFields .set .nil [.element planet]
    let bs := Read.spellBlock object.spell ++ (Read.spellBlock objects.spell ++ [])
    Descriptor.parse .v2 bs = .ok root ∧ planet.Formed .v2 ∧
      root.shapeFor true = .error (.notBindable .object) ∧
      ∀ required k, root.shapeFor required = .error (.notBindable k) →
        k = .object ∨ k = .compound := by
  intro object objects planet root bs
  have hobject : typeAt? [object] 0 = some planet := by
    rw [typeAt?]
    rfl
  have hroot : typeAt? [object, objects] 1 = some root := by
    refine (@typeAt?_length .v2 [object] [] objects).trans ?_
    have hzero : (0 : Position).toNat = 0 := rfl
    simp only [objects, Node.resolve?, Body.resolve?, Body.about?, Body.fields?, hzero, hobject]
    rfl
  have hparse : Descriptor.parse .v2 bs = .ok root := by
    refine (parse_eq_ok_iff (by decide)).mpr
      ⟨[object, objects], .cons ⟨rfl, by decide⟩ (.cons ⟨rfl, by decide⟩ .nil), ?_, 1, hroot, ?_⟩
    · rintro (_ | _ | i) node hnode p hp
      · obtain rfl := Option.some.inj hnode
        cases hp
      · obtain rfl := Option.some.inj hnode
        obtain rfl := List.mem_singleton.mp hp
        exact ⟨by decide, object, rfl, rfl⟩
      · cases hnode
    · intro j hj
      exact Nat.le_of_lt_succ hj.lt
  obtain ⟨hformed, hshape, -⟩ := parse_formed hparse
  exact ⟨hparse, hformed planet (.part List.mem_cons_self .here), rfl,
    fun required k herror => (hshape required k herror).2⟩

end TypedWire.Descriptor
