import TypedWire.Proofs.Descriptor.Reads
import TypedWire.Proofs.Outcome

/-!
# Reading follows the grammar

- `reads_node`, `reads_next`: a node, bare and as the dialect sends it.
- `nodes_eq_ok_iff`: the nodes of a stream.
- `Descriptor.parse_iff_grammar`: a stream is accepted exactly if it is in the grammar, and its last
  type is what is read.
-/

namespace TypedWire.Grammar

open Read (Reads Each)

/-! ## Nodes -/

section Nodes

variable {dialect : Dialect}

/-- The tags of a dialect are its first ones, and each has its own byte. -/
theorem ofByte?_eq_some_iff {byte : UInt8} {tag : Tag} :
    Tag.ofByte? dialect byte = some tag ↔
      byte = tagByte tag ∧ tag ∈ Tag.all.take (Tag.count dialect) := by
  rw [Tag.ofByte?]
  constructor
  · intro h
    refine ⟨?_, List.mem_of_getElem? h⟩
    -- the bytes of the tags are their places in the list of all tags
    have hbytes : Tag.all.map tagByte = (List.range 14).map UInt8.ofNat := rfl
    have htag : Tag.all[byte.toNat]? = some tag := by
      rw [List.getElem?_take] at h
      split at h
      · exact h
      · cases h
    have hbyte : ((List.range 14).map UInt8.ofNat)[byte.toNat]? = some (tagByte tag) := by
      rw [← hbytes, List.getElem?_map, htag]
      rfl
    rw [List.getElem?_map] at hbyte
    obtain ⟨n, hn, hsame⟩ := Option.map_eq_some_iff.mp hbyte
    obtain ⟨_, rfl⟩ := List.getElem?_eq_some_iff.mp hn
    rw [List.getElem_range, UInt8.ofNat_toNat] at hsame
    exact hsame
  · rintro ⟨rfl, htag⟩
    cases dialect <;> cases tag <;> revert htag <;> decide

theorem Body.tag_mem {tag : Tag} (body : Body dialect tag) :
    tag ∈ Tag.all.take (Tag.count dialect) := by
  cases dialect <;> cases body <;> decide

theorem isAnnotationTag_tagByte (tag : Tag) : isAnnotationTag (tagByte tag) = false := by
  cases tag <;> decide

/-- What is read after a tag and an identifier: the rest of a type or of an annotation. -/
theorem reads_body (seen : Nodes) (byte : UInt8) :
    Reads (Stream.body dialect seen byte) fun front found => ∃ id rest,
      front = Uuid.toBytes id ++ rest ∧
        ((∃ (tag : Tag) (body : Body dialect tag), byte = tagByte tag ∧ rest = body.spell ∧
            (body.resolve? (typeIn seen) id).map some = some found) ∨
          ∃ payload : Block, 0x80 ≤ byte ∧ rest = payload.spell ∧ found = none) := by
  refine ((reads_lift Read.reads_uuid).bind fun id =>
    (?_ : Reads _ fun rest found =>
      (∃ (tag : Tag) (body : Body dialect tag), byte = tagByte tag ∧ rest = body.spell ∧
          (body.resolve? (typeIn seen) id).map some = some found) ∨
        ∃ payload : Block, 0x80 ≤ byte ∧ rest = payload.spell ∧ found = none)).congr
      fun front found => ?_
  · split
    · rename_i hmarked
      refine (reads_mapped (fun _ => none) reads_members).congr fun rest found => ?_
      constructor
      · rintro ⟨payload, rfl, h⟩
        exact .inr ⟨payload, of_decide_eq_true hmarked, rfl, (Option.some.inj h).symm⟩
      · rintro (⟨tag, _, rfl, -⟩ | ⟨payload, -, rfl, rfl⟩)
        · rw [isAnnotationTag_tagByte] at hmarked
          cases hmarked
        · exact ⟨payload, rfl, rfl⟩
    · rename_i hplain
      -- a byte below those of annotations has to be the one of a tag
      have hplain : ¬ 0x80 ≤ byte := fun h => hplain (decide_eq_true h)
      split
      · rename_i tag htag
        obtain ⟨rfl, hmem⟩ := ofByte?_eq_some_iff.mp htag
        refine (reads_mapped some (reads_type seen hmem id)).congr fun rest found => ?_
        constructor
        · rintro ⟨body, rfl, h⟩
          exact .inl ⟨tag, body, rfl, rfl, h⟩
        · rintro (⟨tag', body, hbyte, rfl, h⟩ | ⟨payload, hmarked, -⟩)
          · have hsame := ofByte?_eq_some_iff.mpr ⟨hbyte, body.tag_mem⟩
            obtain rfl := Option.some.inj (htag.symm.trans hsame)
            exact ⟨body, rfl, h⟩
          · exact absurd hmarked hplain
      · rename_i hnone
        refine (Reads.throw _).congr fun rest found => ⟨False.elim, ?_⟩
        rintro (⟨tag, body, hbyte, -⟩ | ⟨payload, hmarked, -⟩)
        · rw [ofByte?_eq_some_iff.mpr ⟨hbyte, body.tag_mem⟩] at hnone
          cases hnone
        · exact hplain hmarked
  · constructor
    · rintro ⟨id, _, rest, rfl, rfl, h⟩
      exact ⟨id, rest, rfl, h⟩
    · rintro ⟨id, rest, rfl, h⟩
      exact ⟨id, _, rest, rfl, rfl, h⟩

theorem reads_node (seen : Nodes) :
    Reads (Stream.node dialect seen)
      (Spelled (Node.spell : Node dialect → Bytes) (Node.resolve? (typeIn seen))) := by
  refine ((reads_lift Read.reads_uint8).bind (reads_body seen)).congr fun front found => ?_
  constructor
  · rintro ⟨byte, _, _, rfl, rfl, id, _, rfl, h⟩
    rcases h with ⟨tag, body, rfl, rfl, h⟩ | ⟨payload, hmarked, rfl, rfl⟩
    · exact ⟨.type id body, rfl, h⟩
    · exact ⟨.remark byte hmarked id payload, rfl, rfl⟩
  · rintro ⟨node, rfl, h⟩
    cases node with
    | @type tag id body =>
      exact ⟨tagByte tag, _, _, rfl, rfl, id, _, rfl, .inl ⟨tag, body, rfl, rfl, h⟩⟩
    | remark byte hmarked id payload =>
      exact ⟨byte, _, _, rfl, rfl, id, _, rfl,
        .inr ⟨payload, hmarked, rfl, (Option.some.inj h).symm⟩⟩

/-- What fills its own bytes is read from them. -/
theorem inside_finish_iff {α : Type} {p : Read ParseError α} {bytes bs left : Bytes} {a : α} :
    Read.inside bytes (do
      let a ← p
      liftM Read.finish
      return a) bs = .ok (a, left) ↔ p bytes = .ok (a, []) ∧ left = bs := by
  constructor
  · intro h
    unfold Read.inside at h
    split at h
    · rename_i b rest hrun
      obtain ⟨rfl, rfl⟩ := Prod.mk.inj (Except.ok.inj h)
      obtain ⟨c, mid, hp, hrun⟩ := Read.bind_eq_ok hrun
      obtain ⟨_, after, hfinish, hrun⟩ := Read.bind_eq_ok hrun
      obtain ⟨rfl, rfl⟩ := Prod.mk.inj (Except.ok.inj hrun)
      obtain ⟨rfl, -⟩ := Read.finish_eq_ok_iff.mp (Read.mapError_eq_ok hfinish)
      exact ⟨hp, rfl⟩
    · cases h
  · rintro ⟨hp, rfl⟩
    have hrun : (do
        let a ← p
        liftM Read.finish
        return a : Read ParseError α) bytes = .ok (a, []) := Read.bind_of_ok hp
    rw [Read.inside, hrun]

/-- The next node is read exactly as the dialect sends nodes. -/
theorem reads_next (seen : Nodes) :
    Reads (Stream.next dialect seen) fun front found =>
      ∃ node : Node dialect, node.Written front ∧ node.resolve? (typeIn seen) = some found := by
  cases dialect with
  | v1 => exact reads_node seen
  | v2 =>
    -- the node is read inside of the bytes that its length announces, and has to use them up
    have hframed : ∀ bytes : Bytes, Reads
        (Read.inside bytes do
          let found ← Stream.node .v2 seen
          liftM Read.finish
          return found)
        fun front found => front = [] ∧
          Spelled (Node.spell : Node .v2 → Bytes) (Node.resolve? (typeIn seen)) bytes found := by
      intro bytes bs found left
      rw [inside_finish_iff, reads_node seen]
      constructor
      · rintro ⟨⟨front, rfl, h⟩, rfl⟩
        rw [List.append_nil]
        exact ⟨[], rfl, rfl, h⟩
      · rintro ⟨_, rfl, rfl, h⟩
        exact ⟨⟨bytes, (List.append_nil _).symm, h⟩, rfl⟩
    refine ((reads_lift Read.reads_uint32).bind fun n =>
      (reads_lift (Read.reads_take n.toNat)).bind hframed).congr fun front found => ?_
    constructor
    · rintro ⟨n, _, _, rfl, rfl, _, _, _, rfl, ⟨rfl, hlen⟩, rfl, node, rfl, h⟩
      rw [List.append_nil, ← hlen]
      exact ⟨node, ⟨rfl, hlen ▸ n.toNat_lt⟩, h⟩
    · rintro ⟨node, ⟨rfl, hlt⟩, h⟩
      have hn : (UInt32.ofNat node.spell.length).toNat = node.spell.length :=
        UInt32.toNat_ofNat_of_lt' hlt
      refine ⟨UInt32.ofNat node.spell.length, _, node.spell, ?_, rfl, node.spell, _, [],
        (List.append_nil _).symm, ⟨rfl, hn.symm⟩, rfl, node, rfl, h⟩
      rw [hn]
      rfl

end Nodes

/-! ## Streams -/

section Streams

variable {dialect : Dialect}

/-- After a node the others are read. -/
theorem nodes_of_next {seen : Nodes} {bs left : Bytes} {found : Option Descriptor}
    (h : Stream.next dialect seen bs = .ok (found, left)) :
    Stream.nodes dialect seen bs = Stream.nodes dialect (seen ++ [found]) left := by
  have hshorter := Stream.next_shrinks h
  -- reading the node has left less, so there was something to read
  have hnonempty : ¬bs.isEmpty = true := by
    intro hempty
    rw [List.isEmpty_iff.mp hempty] at hshorter
    exact absurd hshorter (Nat.not_lt_zero _)
  rw [Stream.nodes, if_neg hnonempty]
  split
  · rename_i e he
    cases h.symm.trans he
  · rename_i found' left' hsame
    obtain ⟨rfl, rfl⟩ := Prod.mk.inj (Except.ok.inj (h.symm.trans hsame))
    rfl

/-- What the nodes that are read after some others stand for: with what is before them, they refer
back. -/
theorem exists_of_nodes : ∀ {bs : Bytes} {before : List (Node dialect)} {found : Nodes},
    RefersBack before → Stream.nodes dialect (types before) bs = .ok found →
      ∃ rest, Each Node.Written bs rest ∧ RefersBack (before ++ rest) ∧
        found = types (before ++ rest) := by
  intro bs
  induction hlen : bs.length using Nat.strongRecOn generalizing bs with
  | ind n ih =>
    intro before found hbefore h
    rw [Stream.nodes] at h
    split at h
    · rename_i hempty
      obtain rfl := List.isEmpty_iff.mp hempty
      obtain rfl := Except.ok.inj h
      exact ⟨[], .nil, by rwa [List.append_nil], by rw [List.append_nil]⟩
    · split at h
      · cases h
      · rename_i last left hnext
        have hshorter := Stream.next_shrinks hnext
        -- the node that was read can follow those before it, and the rest is shorter
        obtain ⟨front, rfl, node, hwritten, hnode⟩ := (reads_next _ _ _ _).mp hnext
        have hstep : RefersBack (before ++ [node]) := hbefore.snoc_iff.mpr (hnode ▸ rfl)
        rw [← types_snoc hnode] at h
        obtain ⟨rest, hrest, hback, rfl⟩ := ih left.length (hlen ▸ hshorter) rfl hstep h
        rw [List.append_assoc, List.singleton_append] at hback
        refine ⟨node :: rest, .cons hwritten hrest, hback, ?_⟩
        rw [List.append_assoc, List.singleton_append]

/-- Nodes that refer back are read, after some others and before whatever follows. -/
theorem nodes_append {bs : Bytes} {rest : List (Node dialect)} (h : Each Node.Written bs rest)
    (more : Bytes) : ∀ {before : List (Node dialect)}, RefersBack (before ++ rest) →
      Stream.nodes dialect (types before) (bs ++ more) =
        Stream.nodes dialect (types (before ++ rest)) more := by
  induction h with
  | nil =>
    intro before _
    rw [List.nil_append, List.append_nil]
  | @cons front bs node rest hwritten _ ih =>
    intro before hback
    have hrest : RefersBack (before ++ [node] ++ rest) := by
      rwa [List.append_assoc, List.singleton_append]
    have hstep : RefersBack (before ++ [node]) := hrest.of_append
    obtain ⟨found, hnode⟩ := Option.isSome_iff_exists.mp (hback.of_append.snoc_iff.mp hstep)
    have hnext := (reads_next (types before)).takes ⟨node, hwritten, hnode⟩ (bs ++ more)
    rw [List.append_assoc, nodes_of_next hnext, ← types_snoc hnode, ih hrest, List.append_assoc,
      List.singleton_append]

/-- Nodes that refer back are read, after some others. -/
theorem nodes_of_written {bs : Bytes} {rest : List (Node dialect)} (h : Each Node.Written bs rest)
    {before : List (Node dialect)} (hback : RefersBack (before ++ rest)) :
    Stream.nodes dialect (types before) bs = .ok (types (before ++ rest)) := by
  have hread := nodes_append h [] hback
  rw [List.append_nil] at hread
  rw [hread, Stream.nodes]
  rfl

theorem refersBack_nil : RefersBack ([] : List (Node dialect)) :=
  fun _ _ h => nomatch h

/-- The nodes of a stream are read exactly if they are in the grammar. -/
theorem nodes_eq_ok_iff {bs : Bytes} {found : Nodes} :
    Stream.nodes dialect [] bs = .ok found ↔
      ∃ stream : List (Node dialect), Each Node.Written bs stream ∧ RefersBack stream ∧
        found = types stream := by
  constructor
  · intro h
    exact exists_of_nodes refersBack_nil h
  · rintro ⟨stream, hwritten, hback, rfl⟩
    exact @nodes_of_written _ _ _ hwritten [] hback

end Streams

end TypedWire.Grammar

namespace TypedWire.Descriptor

open Grammar

/-- A type is read from bytes exactly if they are in the grammar and the type is their root. -/
theorem parse_eq_ok_iff {dialect : Dialect} {bs : Bytes} (h : bs ≠ []) {root : Descriptor} :
    Descriptor.parse dialect bs = .ok root ↔
      ∃ stream : List (Node dialect), Read.Each Node.Written bs stream ∧ RefersBack stream ∧
        IsRoot stream root := by
  have hnonempty : ¬ bs.isEmpty = true := fun hempty => h (List.isEmpty_iff.mp hempty)
  rw [Descriptor.parse, if_neg hnonempty, outcome_bind_eq_ok]
  constructor
  · rintro ⟨found, hnodes, hroot⟩
    obtain ⟨stream, hwritten, hback, rfl⟩ := nodes_eq_ok_iff.mp hnodes
    refine ⟨stream, hwritten, hback, (root?_types_iff hback).mp ?_⟩
    split at hroot
    · rename_i d hd
      obtain rfl := Except.ok.inj hroot
      exact hd
    · cases hroot
  · rintro ⟨stream, hwritten, hback, hroot⟩
    refine ⟨types stream, nodes_eq_ok_iff.mpr ⟨stream, hwritten, hback, rfl⟩, ?_⟩
    rw [(root?_types_iff hback).mpr hroot]
    rfl

/-- A stream that is not empty is accepted exactly if it consists of nodes of the dialect, every
position in them is the one of an earlier type, and there is a type among them. What is accepted is
the last type, with the types at the positions in their places. -/
theorem parse_iff_grammar {dialect : Dialect} {bs : Bytes} (h : bs ≠ []) :
    ((∃ root, Descriptor.parse dialect bs = .ok root) ↔
      ∃ stream : List (Node dialect), Read.Each Node.Written bs stream ∧ RefersBack stream ∧
        ∃ i, IsType stream i) ∧
    ∀ root, Descriptor.parse dialect bs = .ok root ↔
      ∃ stream : List (Node dialect), Read.Each Node.Written bs stream ∧ RefersBack stream ∧
        IsRoot stream root := by
  refine ⟨?_, fun root => parse_eq_ok_iff h⟩
  constructor
  · rintro ⟨root, hparse⟩
    obtain ⟨stream, hwritten, hback, hroot⟩ := (parse_eq_ok_iff h).mp hparse
    exact ⟨stream, hwritten, hback, isType_of_isRoot hroot⟩
  · rintro ⟨stream, hwritten, hback, i, hi⟩
    obtain ⟨root, hroot⟩ := hback.exists_root hi
    exact ⟨root, (parse_eq_ok_iff h).mpr ⟨stream, hwritten, hback, hroot⟩⟩

/-- An array of a scalar, with an annotation between the two: the scalar stays at position zero. -/
theorem parse_annotated_array :
    let scalar : Node .v1 := .type .nil .baseScalar
    let remark : Node .v1 := .remark 0xff (by decide) .nil ⟨[], by decide⟩
    let array : Node .v1 := .type .nil (.array .bare 0 ⟨⟨[-1], by decide⟩, by decide⟩)
    scalar.spell ++ (remark.spell ++ (array.spell ++ [])) ≠ [] ∧
      Descriptor.parse .v1 (scalar.spell ++ (remark.spell ++ (array.spell ++ []))) =
        .ok (ofFields .array .nil [.element (ofFields .baseScalar .nil [])]) := by
  intro scalar remark array
  have hne : scalar.spell ++ (remark.spell ++ (array.spell ++ [])) ≠ [] := by decide
  refine ⟨hne, ((parse_iff_grammar hne).2 _).mpr
    ⟨[scalar, remark, array], .cons rfl (.cons rfl (.cons rfl .nil)), ?_, 2, ?_, ?_⟩⟩
  · rintro (_ | _ | _ | i) node hnode p hp
    · obtain rfl := Option.some.inj hnode
      cases hp
    · obtain rfl := Option.some.inj hnode
      cases hp
    · obtain rfl := Option.some.inj hnode
      obtain rfl := List.mem_singleton.mp hp
      exact ⟨by decide, scalar, rfl, rfl⟩
    · cases hnode
  · have hscalar : typeAt? [scalar, remark] 0 = some (ofFields .baseScalar .nil []) := by
      rw [typeAt?]
      rfl
    have hzero : (0 : Position).toNat = 0 := rfl
    refine (@typeAt?_length .v1 [scalar, remark] [] array).trans ?_
    simp only [array, Node.resolve?, Body.resolve?, Body.about?, Info.about?, Body.fields?, hzero,
      hscalar]
    rfl
  · intro j hj
    exact Nat.le_of_lt_succ hj.lt

end TypedWire.Descriptor
