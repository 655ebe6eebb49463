import TypedWire.Proofs.Descriptor.Grammar

/-!
# Reading types

What stands for a type is read as the type, and nothing else is accepted.

- `Spelled`: bytes that are the spelling of something with a value.
- `reads_then`, `reads_mapped`, `reads_onto`: reads of such bytes, made from others.
- `reads_position`, `reads_element`, …: the pieces of a type.
- `reads_type`: the type with a tag.
-/

namespace TypedWire.Grammar

open Read (Reads Each)

/-! ## Spellings with values -/

section Spellings

variable {ε σ τ α β : Type} {spell : σ → Bytes} {value? : σ → Option α}

/-- The bytes are how something with the value is spelled. -/
def Spelled (spell : σ → Bytes) (value? : σ → Option α) (front : Bytes) (a : α) : Prop :=
  ∃ s, front = spell s ∧ value? s = some a

theorem reads_const (a : α) :
    Reads (pure a : Read ε α) (Spelled (fun _ : Unit => []) fun _ => some a) := by
  refine (Reads.pure a).congr fun front b => ?_
  constructor
  · rintro ⟨rfl, rfl⟩
    exact ⟨(), rfl, rfl⟩
  · rintro ⟨_, rfl, h⟩
    exact ⟨rfl, (Option.some.inj h).symm⟩

theorem reads_then {p : Read ε α} {f : α → Read ε β} {spell' : τ → Bytes}
    {value'? : α → τ → Option β} (hp : Reads p (Spelled spell value?))
    (hf : ∀ a, Reads (f a) (Spelled spell' (value'? a))) :
    Reads (p >>= f) (Spelled (fun s : σ × τ => spell s.1 ++ spell' s.2)
      fun s => (value? s.1).bind fun a => value'? a s.2) := by
  refine (hp.bind hf).congr fun front b => ?_
  constructor
  · rintro ⟨a, _, _, rfl, ⟨s, rfl, hs⟩, t, rfl, ht⟩
    exact ⟨(s, t), rfl, Option.bind_eq_some_iff.mpr ⟨a, hs, ht⟩⟩
  · rintro ⟨⟨s, t⟩, rfl, h⟩
    obtain ⟨a, hs, ht⟩ := Option.bind_eq_some_iff.mp h
    exact ⟨a, _, _, rfl, ⟨s, rfl, hs⟩, t, rfl, ht⟩

theorem reads_mapped {p : Read ε α} (f : α → β) (hp : Reads p (Spelled spell value?)) :
    Reads (do return f (← p)) (Spelled spell fun s => (value? s).map f) := by
  refine (hp.map f).congr fun front b => ?_
  constructor
  · rintro ⟨a, rfl, s, rfl, hs⟩
    exact ⟨s, rfl, Option.map_eq_some_iff.mpr ⟨a, hs, rfl⟩⟩
  · rintro ⟨s, rfl, h⟩
    obtain ⟨a, hs, rfl⟩ := Option.map_eq_some_iff.mp h
    exact ⟨a, rfl, s, rfl, hs⟩

/-- The same spellings and values, of other things. -/
theorem reads_onto {p : Read ε α} {spell' : τ → Bytes} {value'? : τ → Option α}
    (hp : Reads p (Spelled spell value?)) (make : σ → τ) (hspell : ∀ s, spell' (make s) = spell s)
    (hvalue : ∀ s, value'? (make s) = value? s) (honto : ∀ t, ∃ s, make s = t) :
    Reads p (Spelled spell' value'?) := by
  refine hp.congr fun front a => ?_
  constructor
  · rintro ⟨s, rfl, hs⟩
    exact ⟨make s, (hspell s).symm, (hvalue s).trans hs⟩
  · rintro ⟨t, rfl, ht⟩
    obtain ⟨s, rfl⟩ := honto t
    exact ⟨s, hspell s, (hvalue s).symm.trans ht⟩

/-- Spellings of some things with values are the spelling of a list of them. -/
theorem each_spelled_iff : ∀ {front : Bytes} {as : List α},
    Each (Spelled spell value?) front as ↔
      Spelled (List.flatMap spell) (List.mapM value?) front as := by
  intro front as
  constructor
  · intro h
    induction h with
    | nil => exact ⟨[], rfl, rfl⟩
    | cons head _ ih =>
      obtain ⟨s, rfl, hs⟩ := head
      obtain ⟨ss, rfl, hss⟩ := ih
      exact ⟨s :: ss, List.flatMap_cons.symm, mapM_cons_eq_some.mpr ⟨_, _, hs, hss, rfl⟩⟩
  · rintro ⟨ss, rfl, hss⟩
    induction ss generalizing as with
    | nil =>
      obtain rfl := Option.some.inj hss
      exact .nil
    | cons s ss ih =>
      obtain ⟨a, as, hs, htail, rfl⟩ := mapM_cons_eq_some.mp hss
      rw [List.flatMap_cons]
      exact .cons ⟨s, rfl, hs⟩ (ih htail)

end Spellings

/-! ## Parts of nodes -/

theorem reads_lift {α : Type} {p : Read DecodeError α} {spells : Bytes → α → Prop}
    (hp : Reads p spells) : Reads (liftM p : Read ParseError α) spells :=
  hp.mapError _

theorem reads_byte :
    Reads (liftM Read.uint8 : Read ParseError UInt8) (Spelled (fun n => [n]) some) := by
  refine (reads_lift Read.reads_uint8).congr fun front n => ?_
  constructor
  · rintro rfl
    exact ⟨n, rfl, rfl⟩
  · rintro ⟨_, rfl, h⟩
    rw [Option.some.inj h]

theorem reads_name :
    Reads (liftM Read.text : Read ParseError String)
      (Spelled Name.spell fun name => some name.text) := by
  refine (reads_lift Read.reads_text).congr fun front text => ?_
  constructor
  · rintro ⟨rfl, hlt⟩
    exact ⟨⟨text, hlt⟩, rfl, rfl⟩
  · rintro ⟨name, rfl, h⟩
    obtain rfl := Option.some.inj h
    exact ⟨rfl, name.fits⟩

theorem reads_members :
    Reads (liftM Read.block : Read ParseError Bytes)
      (Spelled Block.spell fun block => some block.bytes) := by
  refine (reads_lift Read.reads_block).congr fun front bytes => ?_
  constructor
  · rintro ⟨rfl, hlt⟩
    exact ⟨⟨bytes, hlt⟩, rfl, rfl⟩
  · rintro ⟨block, rfl, h⟩
    obtain rfl := Option.some.inj h
    exact ⟨rfl, block.fits⟩

/-- A position is read exactly if an earlier type has it. -/
theorem reads_position (seen : Nodes) :
    Reads (Stream.reference seen) (Spelled spellPosition (typeIn seen)) := by
  refine ((reads_lift Read.reads_uint16).bind fun index =>
    (?_ : Reads _ fun front d => front = [] ∧ typeIn seen index = some d)).congr
      fun front d => ?_
  · -- after the position nothing is taken: an earlier type has it or none has
    rw [typeIn]
    split
    · rename_i d hd
      refine (Reads.pure d).congr fun front d' => and_congr_right fun _ => ?_
      rw [hd, Option.join_some, Option.some.injEq]
      exact eq_comm
    · rename_i hnone
      refine (Reads.throw _).congr fun front d => ⟨False.elim, ?_⟩
      rintro ⟨-, hd⟩
      exact hnone d (Option.join_eq_some_iff.mp hd)
  · constructor
    · rintro ⟨index, _, _, rfl, rfl, rfl, hd⟩
      exact ⟨index, List.append_nil _, hd⟩
    · rintro ⟨index, rfl, hd⟩
      exact ⟨index, _, [], (List.append_nil _).symm, rfl, rfl, hd⟩

section Counted

variable {σ α : Type} {spell : σ → Bytes} {value? : σ → Option α}

theorem reads_counted {item : Read ParseError α} (h : Reads item (Spelled spell value?)) :
    Reads (Stream.counted item)
      (Spelled (fun c : Counted σ => c.spell spell) fun c => c.items.mapM value?) := by
  refine ((reads_lift Read.reads_uint16).bind fun n => h.times n.toNat).congr fun front as => ?_
  constructor
  · rintro ⟨n, _, _, rfl, rfl, hitems, hlen⟩
    obtain ⟨items, rfl, hvalue⟩ := each_spelled_iff.mp hitems
    -- there are as many items as values, which is what the two bytes say
    have hn : items.length = n.toNat := (length_of_mapM hvalue).symm.trans hlen
    refine ⟨⟨items, hn ▸ n.toNat_lt⟩, ?_, hvalue⟩
    exact congrArg (BigEndian.encode 2 · ++ items.flatMap spell) hn.symm
  · rintro ⟨⟨items, hlt⟩, rfl, hvalue⟩
    have hn : (UInt16.ofNat items.length).toNat = items.length := UInt16.toNat_ofNat_of_lt' hlt
    refine ⟨UInt16.ofNat items.length, _, _, rfl, by rw [hn], ?_, ?_⟩
    · exact each_spelled_iff.mpr ⟨items, rfl, hvalue⟩
    · rw [hn, length_of_mapM hvalue]

end Counted

theorem required?_eq_some_iff {card : UInt8} {required : Bool} :
    Cardinality.required? card = some required ↔
      ∃ c : Cardinality, c.byte = card ∧ c.required = required := by
  constructor
  · intro h
    unfold Cardinality.required? at h
    split at h
    · rename_i hcard
      obtain rfl := Option.some.inj h
      rcases hcard with rfl | rfl
      · exact ⟨.atMostOne, rfl, rfl⟩
      · exact ⟨.many, rfl, rfl⟩
    · split at h
      · rename_i hcard
        obtain rfl := Option.some.inj h
        rcases hcard with rfl | rfl
        · exact ⟨.one, rfl, rfl⟩
        · exact ⟨.atLeastOne, rfl, rfl⟩
      · cases h
  · rintro ⟨c, rfl, rfl⟩
    cases c <;> rfl

/-- A field of a shape, with what is passed over after it. -/
theorem reads_shapeField (seen : Nodes) {hasSource : Bool} {σ : Type} {spell : σ → Bytes}
    (hsource : ∀ f : Field Descriptor,
      Reads (if hasSource then do let _ ← (liftM Read.uint16 : Read ParseError UInt16); pure f
        else pure f) (Spelled spell fun _ => some f)) :
    Reads (Stream.shapeField seen hasSource)
      (Spelled (fun s : Element × σ => s.1.spell ++ spell s.2)
        fun s => s.1.field? (typeIn seen)) := by
  refine ((reads_lift Read.reads_uint32).bind fun flags =>
    (reads_lift Read.reads_uint8).bind fun card =>
      (?_ : Reads _ fun front f => ∃ (c : Cardinality) (name : Name) (part : Position) (s : σ),
        c.byte = card ∧ front = name.spell ++ (spellPosition part ++ spell s) ∧
          Element.field? (typeIn seen) ⟨flags, c, name, part⟩ = some f)).congr fun front f => ?_
  · -- the byte of no cardinality ends the reading, any other goes on to the name
    cases hrequired : TypedWire.Cardinality.required? card with
    | none =>
      refine (Reads.throw _).congr fun front f => ⟨False.elim, ?_⟩
      rintro ⟨c, _, _, _, hc, -⟩
      rw [required?_eq_some_iff.mpr ⟨c, hc, rfl⟩] at hrequired
      cases hrequired
    | some required =>
      refine (reads_then reads_name fun name => reads_then (reads_position seen) fun desc =>
        hsource _).congr fun front f => ?_
      constructor
      · rintro ⟨⟨name, part, s⟩, rfl, h⟩
        obtain ⟨c, hc, rfl⟩ := required?_eq_some_iff.mp hrequired
        exact ⟨c, name, part, s, hc, rfl, Option.map_eq_bind.trans h⟩
      · rintro ⟨c, name, part, s, hc, rfl, h⟩
        have hsame := required?_eq_some_iff.mpr ⟨c, hc, rfl⟩
        obtain rfl := Option.some.inj (hrequired.symm.trans hsame)
        exact ⟨⟨name, part, s⟩, rfl, Option.map_eq_bind.symm.trans h⟩
  · constructor
    · rintro ⟨flags, _, _, rfl, rfl, card, _, _, rfl, rfl, c, name, part, s, rfl, rfl, h⟩
      refine ⟨(⟨flags, c, name, part⟩, s), ?_, h⟩
      simp only [Element.spell, List.append_assoc, List.cons_append, List.nil_append]
    · rintro ⟨⟨⟨flags, c, name, part⟩, s⟩, rfl, h⟩
      refine ⟨flags, _, _, ?_, rfl, c.byte, _, _, rfl, rfl, c, name, part, s, rfl, rfl, h⟩
      simp only [Element.spell, List.append_assoc, List.cons_append, List.nil_append]

theorem reads_element (seen : Nodes) :
    Reads (Stream.shapeField seen false)
      (Spelled Element.spell (Element.field? (typeIn seen))) :=
  reads_onto (reads_shapeField seen fun f => reads_const f) Prod.fst
    (fun _ => (List.append_nil _).symm) (fun _ => rfl) fun e => ⟨(e, ()), rfl⟩

theorem reads_sourced (seen : Nodes) :
    Reads (Stream.shapeField seen true)
      (Spelled SourcedElement.spell fun e => e.element.field? (typeIn seen)) := by
  have hsource : ∀ f : Field Descriptor,
      Reads (do let _ ← (liftM Read.uint16 : Read ParseError UInt16); pure f)
        (Spelled spellPosition fun _ => some f) := by
    intro f
    refine ((reads_lift Read.reads_uint16).bind fun _ => Reads.pure f).congr fun front g => ?_
    constructor
    · rintro ⟨source, _, _, rfl, rfl, rfl, rfl⟩
      exact ⟨source, List.append_nil _, rfl⟩
    · rintro ⟨source, rfl, h⟩
      exact ⟨source, _, [], (List.append_nil _).symm, rfl, rfl, (Option.some.inj h).symm⟩
  exact reads_onto (reads_shapeField seen hsource) (fun s => ⟨s.1, s.2⟩) (fun _ => rfl)
    (fun _ => rfl) fun e => ⟨(e.element, e.source), rfl⟩

theorem reads_namedPart (seen : Nodes) :
    Reads (Stream.namedField seen) (Spelled NamedPart.spell (NamedPart.field? (typeIn seen))) :=
  reads_onto (reads_then reads_name fun name => reads_mapped (Field.named name · true)
    (reads_position seen)) (fun s => ⟨s.1, s.2⟩) (fun _ => rfl) (fun _ => rfl)
    fun p => ⟨(p.name, p.part), rfl⟩

/-- Every four bytes are the size of a dimension. -/
theorem exists_sizes (n : Nat) (bytes : Bytes) (h : bytes.length = 4 * n) :
    ∃ sizes : List Int32, sizes.length = n ∧ sizes.flatMap spellSize = bytes := by
  induction n generalizing bytes with
  | zero =>
    obtain rfl := List.eq_nil_of_length_eq_zero h
    exact ⟨[], rfl, rfl⟩
  | succ n ih =>
    obtain ⟨sizes, hlen, hsizes⟩ := ih (bytes.drop 4) (by rw [List.length_drop]; omega)
    have hfront : (bytes.take 4).length = 4 := by rw [List.length_take]; omega
    have hlt := BigEndian.decode_lt (bytes.take 4)
    rw [hfront] at hlt
    refine ⟨(UInt32.ofNat (BigEndian.decode (bytes.take 4))).toInt32 :: sizes,
      congrArg (· + 1) hlen, ?_⟩
    have hsize : spellSize (UInt32.ofNat (BigEndian.decode (bytes.take 4))).toInt32 =
        bytes.take 4 := by
      have hcode := BigEndian.encode_decode (bytes.take 4)
      rw [hfront] at hcode
      rw [spellSize, UInt32.toUInt32_toInt32, UInt32.toNat_ofNat_of_lt' hlt, hcode]
    rw [List.flatMap_cons, hsize, hsizes, List.take_append_drop]

theorem length_sizes (sizes : List Int32) :
    (sizes.flatMap spellSize).length = 4 * sizes.length := by
  induction sizes with
  | nil => rfl
  | cons size sizes ih =>
    rw [List.flatMap_cons, List.length_append, ih, spellSize, BigEndian.length_encode,
      List.length_cons]
    omega

theorem reads_arrayFields (seen : Nodes) :
    Reads (Stream.arrayFields seen)
      (Spelled (fun s : Position × Sizes => spellPosition s.1 ++ s.2.spell)
        fun s => (typeIn seen s.1).map fun desc => [.element desc]) := by
  -- the sizes are passed over, but there has to be one, and all of their bytes
  have hsizes : ∀ (fields : List (Field Descriptor)), Reads
      (do
        let dimensions ← (liftM Read.uint16 : Read ParseError UInt16)
        if dimensions = 0 then throw (.invalidDimensions dimensions)
        liftM (Read.skip (4 * dimensions.toNat))
        return fields)
      (Spelled Sizes.spell fun _ => some fields) := by
    intro fields
    have hskip : ∀ dimensions : UInt16, Reads
        (do
          if dimensions = 0 then throw (.invalidDimensions dimensions)
          liftM (Read.skip (4 * dimensions.toNat))
          return fields : Read ParseError (List (Field Descriptor)))
        fun front found =>
          dimensions ≠ 0 ∧ front.length = 4 * dimensions.toNat ∧ found = fields := by
      intro dimensions
      split
      · rename_i hzero
        exact (Reads.throw_bind _ _).congr fun front found => ⟨False.elim, fun h => h.1 hzero⟩
      · rename_i hne
        refine ((reads_lift (Read.reads_skip _)).bind fun _ => Reads.pure fields).congr
          fun front found => ?_
        constructor
        · rintro ⟨_, _, _, rfl, hlen, rfl, rfl⟩
          exact ⟨hne, by rw [List.append_nil, hlen], rfl⟩
        · rintro ⟨-, hlen, rfl⟩
          exact ⟨(), front, [], (List.append_nil _).symm, hlen, rfl, rfl⟩
    refine ((reads_lift Read.reads_uint16).bind hskip).congr fun front found => ?_
    constructor
    · rintro ⟨dimensions, _, bytes, rfl, rfl, hne, hlen, rfl⟩
      obtain ⟨sizes, hcount, rfl⟩ := exists_sizes _ bytes hlen
      have hnonempty : sizes ≠ [] := by
        rintro rfl
        exact hne (UInt16.toNat_inj.mp hcount.symm)
      refine ⟨⟨⟨sizes, hcount ▸ dimensions.toNat_lt⟩, hnonempty⟩, ?_, rfl⟩
      exact congrArg (BigEndian.encode 2 · ++ sizes.flatMap spellSize) hcount.symm
    · rintro ⟨⟨⟨sizes, hlt⟩, hnonempty⟩, rfl, h⟩
      have hcount : (UInt16.ofNat sizes.length).toNat = sizes.length :=
        UInt16.toNat_ofNat_of_lt' hlt
      have hne : UInt16.ofNat sizes.length ≠ 0 := by
        intro hzero
        rw [hzero] at hcount
        exact hnonempty (List.eq_nil_of_length_eq_zero hcount.symm)
      refine ⟨UInt16.ofNat sizes.length, _, _, rfl, by rw [hcount], hne, ?_,
        (Option.some.inj h).symm⟩
      rw [hcount]
      exact length_sizes sizes
  refine reads_onto (reads_then (reads_position seen) fun desc => hsizes [.element desc]) id
    (fun _ => rfl) (fun s => ?_) fun s => ⟨s, rfl⟩
  exact Option.map_eq_bind

theorem reads_compoundOp :
    Reads Stream.compoundOp (Spelled (fun op : CompoundOp => [opByte op]) some) := by
  have hop : ∀ byte : UInt8, Reads (ε := ParseError)
      (if byte = 1 then pure CompoundOp.union
        else if byte = 2 then pure CompoundOp.intersection
        else throw (.invalidCompoundOp byte))
      fun front op => front = [] ∧ opByte op = byte := by
    intro byte
    split
    · rename_i hbyte
      refine (Reads.pure CompoundOp.union).congr fun front op => and_congr_right fun _ => ?_
      rw [hbyte]
      cases op <;> decide
    · rename_i hunion
      split
      · rename_i hbyte
        refine (Reads.pure CompoundOp.intersection).congr fun front op =>
          and_congr_right fun _ => ?_
        rw [hbyte]
        cases op <;> decide
      · rename_i hintersection
        refine (Reads.throw _).congr fun front op => ⟨False.elim, ?_⟩
        rintro ⟨-, hop⟩
        cases op with
        | union => exact hunion hop.symm
        | intersection => exact hintersection hop.symm
  refine ((reads_lift Read.reads_uint8).bind hop).congr fun front op => ?_
  constructor
  · rintro ⟨_, _, _, rfl, rfl, rfl, rfl⟩
    exact ⟨op, rfl, rfl⟩
  · rintro ⟨op, rfl, h⟩
    obtain rfl := Option.some.inj h
    exact ⟨opByte op, _, [], rfl, rfl, rfl, rfl⟩

/-! ## Types -/

section Types

variable {dialect : Dialect} (seen : Nodes)

theorem reads_nothing :
    Reads (Stream.typeInfo seen .nothing)
      (Spelled (fun _ : Unit => []) fun _ => some ⟨none, false, []⟩) :=
  reads_const _

theorem reads_nameInfo :
    Reads (Stream.typeInfo seen .name)
      (Spelled (fun s : Name × UInt8 => s.1.spell ++ [s.2])
        fun s => some ⟨some s.1.text, s.2 != 0, []⟩) :=
  reads_onto (reads_then reads_name fun name =>
    reads_mapped (fun schemaDefined => TypeInfo.mk (some name) (schemaDefined != 0) []) reads_byte)
    id (fun _ => rfl) (fun _ => rfl) fun s => ⟨s, rfl⟩

theorem reads_fullInfo :
    Reads (Stream.typeInfo seen .nameAndAncestors)
      (Spelled (Info.spell : Info .v2 → Bytes) (Info.about? (typeIn seen))) := by
  refine reads_onto (reads_then reads_name fun name => reads_then reads_byte fun schemaDefined =>
    reads_mapped (fun types => TypeInfo.mk (some name) (schemaDefined != 0) types)
      (reads_counted (reads_position seen)))
    (fun s => Info.full s.1 s.2.1 s.2.2) (fun _ => rfl) (fun _ => rfl) ?_
  intro info
  cases info with
  | full name schemaDefined ancestors => exact ⟨(name, schemaDefined, ancestors), rfl⟩

/-- What stands before the parts of a type that has a name, by dialect. -/
theorem reads_info :
    Reads (Stream.typeInfo seen (match dialect with
        | .v1 => .nothing
        | .v2 => .nameAndAncestors))
      (Spelled (Info.spell : Info dialect → Bytes) (Info.about? (typeIn seen))) := by
  cases dialect with
  | v1 =>
    refine reads_onto (reads_nothing seen) (fun _ => Info.bare) (fun _ => rfl) (fun _ => rfl) ?_
    intro info
    cases info with
    | bare => exact ⟨(), rfl⟩
  | v2 => exact reads_fullInfo seen

theorem reads_typeOf {tag : Tag} {ι π : Type} {spellInfo : ι → Bytes} {info? : ι → Option TypeInfo}
    {spellParts : π → Bytes} {parts? : π → Option Parts} {id : Uuid}
    (hinfo : Reads (Stream.typeInfo seen (tag.naming dialect)) (Spelled spellInfo info?))
    (hparts : Reads (Stream.parts dialect seen tag) (Spelled spellParts parts?))
    (make : ι × π → Body dialect tag)
    (hspell : ∀ s, (make s).spell = spellInfo s.1 ++ spellParts s.2)
    (hkind : ∀ s, (make s).kind = tag.kind dialect)
    (habout : ∀ s, (make s).about? (typeIn seen) = info? s.1)
    (hfields : ∀ s, ((make s).fields? (typeIn seen)).map (⟨·, none, (make s).op?⟩) = parts? s.2)
    (honto : ∀ body, ∃ s, make s = body) :
    Reads (Stream.type dialect seen tag id)
      (Spelled (Body.spell : Body dialect tag → Bytes) (Body.resolve? (typeIn seen) id)) := by
  refine reads_onto (reads_then hinfo fun info => reads_mapped _ hparts) make hspell ?_ honto
  intro s
  -- a tag without an object type takes its name from what stands before the parts
  rw [Body.resolve?, habout, ← hfields, hkind]
  cases info? s.1 with
  | none => rfl
  | some about =>
    cases (make s).fields? (typeIn seen) with
    | none => rfl
    | some fields =>
      simp only [Option.bind_some, Option.map_some, Option.or_none]
      rfl

theorem reads_onlyField :
    Reads (Stream.onlyField seen)
      (Spelled spellPosition fun p => (typeIn seen p).map fun desc => [.element desc]) :=
  reads_mapped (fun desc => [Field.element desc]) (reads_position seen)

theorem reads_tupleFields :
    Reads (Stream.tupleFields seen)
      (Spelled (fun parts : Counted Position => parts.spell spellPosition)
        fun parts => (parts.items.mapM (typeIn seen)).map fun types =>
          types.zipIdx.map fun (desc, i) => .named (toString i) desc true) :=
  reads_mapped _ (reads_counted (reads_position seen))

theorem reads_compoundParts :
    Reads (Stream.compoundParts seen)
      (Spelled (fun s : CompoundOp × Counted Position => opByte s.1 :: s.2.spell spellPosition)
        fun s => (s.2.items.mapM (typeIn seen)).map fun types =>
          ⟨types.map fun desc => { Field.element desc with union := s.1 == .union },
            none, some s.1⟩) :=
  reads_onto (reads_then reads_compoundOp fun _ => reads_mapped _
    (reads_counted (reads_position seen))) id (fun _ => rfl) (fun _ => rfl) fun s => ⟨s, rfl⟩

/-- The parts of an object shape of the second dialect. -/
theorem reads_objectShape :
    Reads (Stream.parts .v2 seen .shape)
      (Spelled (fun s : UInt8 × Position × Counted SourcedElement =>
          s.1 :: (spellPosition s.2.1 ++ s.2.2.spell SourcedElement.spell))
        fun s => (typeIn seen s.2.1).bind fun object =>
          (s.2.2.items.mapM fun e : SourcedElement => e.element.field? (typeIn seen)).map
            (Parts.mk · object.name none)) :=
  reads_onto (reads_then reads_byte fun _ => reads_then (reads_position seen) fun object =>
    reads_mapped (Parts.mk · object.name none) (reads_counted (reads_sourced seen)))
    id (fun _ => rfl) (fun _ => rfl) fun s => ⟨s, rfl⟩

/-- A type is read exactly as its tag says. -/
theorem reads_type {tag : Tag} (htag : tag ∈ Tag.all.take (Tag.count dialect)) (id : Uuid) :
    Reads (Stream.type dialect seen tag id)
      (Spelled (Body.spell : Body dialect tag → Bytes) (Body.resolve? (typeIn seen) id)) := by
  have honly := reads_mapped Stream.ofFields (reads_onlyField seen)
  have hshape := reads_mapped Stream.ofFields (reads_counted (reads_element seen))
  have hnamed := reads_mapped Stream.ofFields (reads_counted (reads_namedPart seen))
  cases tag with
  | set =>
    refine reads_typeOf seen (reads_nothing seen) honly (fun s => .set s.2)
      (fun _ => rfl) (fun _ => rfl) (fun _ => rfl) (fun _ => rfl) ?_
    intro body
    cases body with
    | set part => exact ⟨((), part), rfl⟩
  | range =>
    refine reads_typeOf seen (reads_info seen) honly (fun s => .range s.1 s.2)
      (fun _ => rfl) (fun _ => rfl) (fun _ => rfl) (fun _ => rfl) ?_
    intro body
    cases body with
    | range info part => exact ⟨(info, part), rfl⟩
  | multirange =>
    cases dialect with
    | v1 => exact absurd htag (by decide)
    | v2 =>
      refine reads_typeOf seen (reads_fullInfo seen) honly (fun s => .multirange s.1 s.2)
        (fun _ => rfl) (fun _ => rfl) (fun _ => rfl) (fun _ => rfl) ?_
      intro body
      cases body with
      | multirange info part => exact ⟨(info, part), rfl⟩
  | baseScalar =>
    refine reads_typeOf seen (reads_nothing seen) (reads_const (Stream.ofFields []))
      (fun _ => .baseScalar) (fun _ => rfl) (fun _ => rfl) (fun _ => rfl) (fun _ => rfl) ?_
    intro body
    cases body with
    | baseScalar => exact ⟨((), ()), rfl⟩
  | scalar =>
    cases dialect with
    | v1 =>
      refine reads_typeOf seen (reads_nothing seen) honly (fun s => .derivedScalar s.2)
        (fun _ => rfl) (fun _ => rfl) (fun _ => rfl) (fun _ => rfl) ?_
      intro body
      cases body with
      | derivedScalar base => exact ⟨((), base), rfl⟩
    | v2 =>
      refine reads_typeOf seen (reads_fullInfo seen) (reads_const (Stream.ofFields []))
        (fun s => .scalar s.1) (fun _ => (List.append_nil _).symm) (fun _ => rfl) (fun _ => rfl)
        (fun _ => rfl) ?_
      intro body
      cases body with
      | scalar info => exact ⟨(info, ()), rfl⟩
  | objectType =>
    cases dialect with
    | v1 => exact absurd htag (by decide)
    | v2 =>
      refine reads_typeOf seen (reads_nameInfo seen) (reads_const (Stream.ofFields []))
        (fun s => .objectType s.1.1 s.1.2) (fun _ => (List.append_nil _).symm) (fun _ => rfl)
        (fun _ => rfl) (fun _ => rfl) ?_
      intro body
      cases body with
      | objectType name schemaDefined => exact ⟨((name, schemaDefined), ()), rfl⟩
  | shape =>
    cases dialect with
    | v1 =>
      refine reads_typeOf seen (reads_nothing seen) hshape (fun s => .shape s.2)
        (fun _ => rfl) (fun _ => rfl) (fun _ => rfl) (fun _ => rfl) ?_
      intro body
      cases body with
      | shape elements => exact ⟨((), elements), rfl⟩
    | v2 =>
      refine reads_onto (reads_then (reads_nothing seen) fun info =>
        reads_mapped _ (reads_objectShape seen)) (fun s => .objectShape s.2.1 s.2.2.1 s.2.2.2)
        (fun _ => rfl) ?_ ?_
      · -- here the name of the type comes from its parts: it is the one of the object type
        rintro ⟨_, ephemeral, object, elements⟩
        rw [Body.resolve?, Body.about?, Body.fields?]
        cases typeIn seen object with
        | none => rfl
        | some desc =>
          cases elements.items.mapM fun e : SourcedElement => e.element.field? (typeIn seen) with
          | none => rfl
          | some fields => rfl
      · intro body
        cases body with
        | objectShape ephemeral object elements => exact ⟨((), ephemeral, object, elements), rfl⟩
  | inputShape =>
    refine reads_typeOf seen (reads_nothing seen) hshape (fun s => .inputShape s.2)
      (fun _ => rfl) (fun _ => rfl) (fun _ => rfl) (fun _ => rfl) ?_
    intro body
    cases body with
    | inputShape elements => exact ⟨((), elements), rfl⟩
  | tuple =>
    refine reads_typeOf seen (reads_info seen)
      (reads_mapped Stream.ofFields (reads_tupleFields seen))
      (fun s => .tuple s.1 s.2) (fun _ => rfl) (fun _ => rfl) (fun _ => rfl) (fun _ => rfl) ?_
    intro body
    cases body with
    | tuple info parts => exact ⟨(info, parts), rfl⟩
  | namedTuple =>
    refine reads_typeOf seen (reads_info seen) hnamed (fun s => .namedTuple s.1 s.2)
      (fun _ => rfl) (fun _ => rfl) (fun _ => rfl) (fun _ => rfl) ?_
    intro body
    cases body with
    | namedTuple info parts => exact ⟨(info, parts), rfl⟩
  | sqlRecord =>
    cases dialect with
    | v1 => exact absurd htag (by decide)
    | v2 =>
      refine reads_typeOf seen (reads_nothing seen) hnamed (fun s => .sqlRecord s.2)
        (fun _ => rfl) (fun _ => rfl) (fun _ => rfl) (fun _ => rfl) ?_
      intro body
      cases body with
      | sqlRecord parts => exact ⟨((), parts), rfl⟩
  | array =>
    refine reads_typeOf seen (reads_info seen)
      (reads_mapped Stream.ofFields (reads_arrayFields seen))
      (fun s => .array s.1 s.2.1 s.2.2) (fun _ => rfl) (fun _ => rfl) (fun _ => rfl)
      (fun _ => rfl) ?_
    intro body
    cases body with
    | array info part sizes => exact ⟨(info, part, sizes), rfl⟩
  | enum =>
    refine reads_typeOf seen (reads_info seen)
      (reads_mapped (fun _ => Stream.ofFields []) (reads_counted reads_members))
      (fun s => .enum s.1 s.2) (fun _ => rfl) (fun _ => rfl) (fun _ => rfl) (fun s => ?_) ?_
    · obtain ⟨values, hvalues⟩ := Option.isSome_iff_exists.mp
        (mapM_isSome_iff (f := fun block : Block => some block.bytes).mpr fun block _ => rfl)
      rw [hvalues]
      rfl
    · intro body
      cases body with
      | enum info members => exact ⟨(info, members), rfl⟩
  | compound =>
    cases dialect with
    | v1 => exact absurd htag (by decide)
    | v2 =>
      refine reads_typeOf seen (reads_nameInfo seen) (reads_compoundParts seen)
        (fun s => .compound s.1.1 s.1.2 s.2.1 s.2.2) (fun s => by rw [List.append_assoc]; rfl)
        (fun _ => rfl) (fun _ => rfl) (fun _ => Option.map_map _ _ _) ?_
      intro body
      cases body with
      | compound name defined op components => exact ⟨((name, defined), op, components), rfl⟩

end Types

end TypedWire.Grammar
