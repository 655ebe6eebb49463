import TypedWire.Proofs.Descriptor.Parse
import TypedWire.Proofs.Wire.Delimited

/-!
# Streams that break off

A stream that was accepted cannot be cut so that another type comes out by accident: where the cut
goes through a node the reading runs out of bytes, and between two nodes it gives what the nodes
before the cut stand for.

- `ParseError.RunsOut`: the failure of a stream that ends within a node.
- `Stream.delimited_next`: a node knows where it ends, whatever its kind.
- `Grammar.EndsAfter`, `Grammar.EndsInside`: where a front piece of a stream ends.
- `Grammar.Outcome`: what some nodes stand for together.
- `Descriptor.parse_truncated`: what is read from a front piece.
-/

namespace TypedWire

/-- A descriptor read needs more bytes than there are. -/
def ParseError.RunsOut (e : ParseError) : Prop :=
  ∃ needed remaining, e = .malformed (.overread needed remaining)

/-! ## Nodes know where they end -/

namespace Stream

open Read (Delimited)
open ParseError (RunsOut)

variable {α : Type}

theorem delimited_lift {p : Read DecodeError α} (hp : Delimited p fun _ => DecodeError.RunsOut) :
    Delimited (liftM p : Read ParseError α) fun _ => RunsOut := by
  refine hp.mapError ParseError.malformed ?_
  rintro _ _ ⟨needed, remaining, rfl⟩
  exact ⟨needed, remaining, rfl⟩

theorem delimited_reference (seen : Nodes) : Delimited (reference seen) fun _ => RunsOut := by
  refine (delimited_lift Read.delimited_uint16).next fun index => ?_
  split
  · exact .pure _
  · exact .throw _

theorem delimited_counted {item : Read ParseError α} (h : Delimited item fun _ => RunsOut) :
    Delimited (counted item) fun _ => RunsOut :=
  (delimited_lift Read.delimited_uint16).next fun count => h.times count.toNat

theorem delimited_shapeField (seen : Nodes) (hasSource : Bool) :
    Delimited (shapeField seen hasSource) fun _ => RunsOut := by
  refine (delimited_lift Read.delimited_uint32).next fun flags =>
    (delimited_lift Read.delimited_uint8).next fun card => ?_
  split
  · exact .throw _
  · refine (delimited_lift Read.delimited_text).next fun name =>
      (delimited_reference seen).next fun desc => ?_
    split
    · exact (delimited_lift Read.delimited_uint16).next fun _ => .pure _
    · exact .pure _

theorem delimited_namedField (seen : Nodes) : Delimited (namedField seen) fun _ => RunsOut :=
  (delimited_lift Read.delimited_text).next fun _ => (delimited_reference seen).next fun _ =>
    .pure _

theorem delimited_arrayFields (seen : Nodes) : Delimited (arrayFields seen) fun _ => RunsOut := by
  refine (delimited_reference seen).next fun desc =>
    (delimited_lift Read.delimited_uint16).next fun dimensions => ?_
  split
  · exact .throw_bind _
  · exact (delimited_lift (Read.delimited_skip _)).next fun _ => .pure _

theorem delimited_compoundOp : Delimited compoundOp fun _ => RunsOut := by
  refine (delimited_lift Read.delimited_uint8).next fun byte => ?_
  split
  · exact .pure _
  · split
    · exact .pure _
    · exact .throw _

theorem delimited_parts (dialect : Dialect) (seen : Nodes) (tag : Tag) :
    Delimited (parts dialect seen tag) fun _ => RunsOut := by
  have hreference := delimited_reference seen
  have honly : Delimited (onlyField seen) fun _ => RunsOut := hreference.next fun _ => .pure _
  have hshape := fun hasSource => delimited_counted (delimited_shapeField seen hasSource)
  have hnamed := delimited_counted (delimited_namedField seen)
  cases tag with
  | set | range | multirange => exact honly.map _
  | scalar =>
    cases dialect with
    | v1 => exact honly.map _
    | v2 => exact .pure _
  | baseScalar | objectType => exact .pure _
  | shape =>
    cases dialect with
    | v1 => exact (hshape false).map _
    | v2 =>
      exact (delimited_lift Read.delimited_uint8).next fun _ => hreference.next fun _ =>
        (hshape true).next fun _ => .pure _
  | inputShape => exact (hshape false).map _
  | tuple => exact ((delimited_counted hreference).next fun _ => .pure _).map _
  | namedTuple | sqlRecord => exact hnamed.map _
  | array => exact (delimited_arrayFields seen).map _
  | enum =>
    exact (delimited_counted (delimited_lift Read.delimited_block)).next fun _ => .pure _
  | compound =>
    exact delimited_compoundOp.next fun _ => (delimited_counted hreference).next fun _ => .pure _

theorem delimited_typeInfo (seen : Nodes) (naming : Naming) :
    Delimited (typeInfo seen naming) fun _ => RunsOut := by
  have hname := delimited_lift Read.delimited_text
  have hdefined := delimited_lift Read.delimited_uint8
  cases naming with
  | nothing => exact .pure _
  | name => exact hname.next fun _ => hdefined.next fun _ => .pure _
  | nameAndAncestors =>
    exact hname.next fun _ => hdefined.next fun _ =>
      (delimited_counted (delimited_reference seen)).next fun _ => .pure _

theorem delimited_body (dialect : Dialect) (seen : Nodes) (tag : UInt8) :
    Delimited (body dialect seen tag) fun _ => RunsOut := by
  refine (delimited_lift Read.delimited_uuid).next fun id => ?_
  split
  · exact (delimited_lift Read.delimited_block).next fun _ => .pure _
  · split
    · rename_i tag _
      have htype : Delimited (type dialect seen tag id) fun _ => RunsOut :=
        (delimited_typeInfo seen _).next fun _ => (delimited_parts dialect seen tag).next fun _ =>
          .pure _
      exact htype.map _
    · exact .throw _

/-- A node knows where it ends. A framed one knows it from its length: what is read inside of the
frame takes nothing from the stream. -/
theorem delimited_next (dialect : Dialect) (seen : Nodes) :
    Delimited (next dialect seen) fun _ => RunsOut := by
  cases dialect with
  | v1 => exact (delimited_lift Read.delimited_uint8).next fun tag => delimited_body .v1 seen tag
  | v2 =>
    exact (delimited_lift Read.delimited_uint32).next fun length =>
      (delimited_lift (Read.delimited_take length.toNat)).next fun bytes => .inside bytes _

end Stream

/-! ## Where a front piece ends -/

namespace Grammar

open Read (Each)

variable {dialect : Dialect}

/-- The bytes are those of the first nodes of a stream. -/
structure EndsAfter (stream before : List (Node dialect)) (bs : Bytes) : Prop where
  first : before <+: stream
  written : Each Node.Written bs before

/-- The bytes are those of the first nodes of a stream and a part of the node behind them: neither
none of its bytes nor all. -/
inductive EndsInside (stream before : List (Node dialect)) : Bytes → Prop
  | intro {node : Node dialect} {front head tail : Bytes} (first : before ++ [node] <+: stream)
      (written : Each Node.Written front before) (node_written : node.Written (head ++ tail))
      (some_read : head ≠ []) (some_missing : tail ≠ []) : EndsInside stream before (front ++ head)

/-- What some nodes stand for together: the last type among them, and the empty tuple if there are
no nodes at all. -/
inductive Outcome : List (Node dialect) → Except ParseError Descriptor → Prop
  | nothing : Outcome [] (.ok .emptyTuple)
  | root {nodes : List (Node dialect)} {d : Descriptor} (last : IsRoot nodes d) :
      Outcome nodes (.ok d)
  | remarks {nodes : List (Node dialect)} (some_read : nodes ≠ []) (none_type : ∀ i, ¬IsType nodes i) :
      Outcome nodes (.error .missingRoot)

theorem Node.Written.ne_nil {node : Node dialect} {bs : Bytes} (h : node.Written bs) : bs ≠ [] := by
  cases dialect with
  | v1 =>
    rw [show bs = node.spell from h]
    cases node <;> exact List.cons_ne_nil _ _
  | v2 =>
    rw [h.1]
    exact List.append_ne_nil_of_left_ne_nil (List.cons_ne_nil _ _) _

/-- The bytes of no nodes are none, and those of some nodes are some. -/
theorem Each.eq_nil_iff {bs : Bytes} {nodes : List (Node dialect)}
    (h : Each Node.Written bs nodes) : bs = [] ↔ nodes = [] := by
  cases h with
  | nil => exact ⟨fun _ => rfl, fun _ => rfl⟩
  | cons head _ =>
    constructor
    · intro hnil
      exact (head.ne_nil (List.append_eq_nil_iff.mp hnil).1).elim
    · rintro ⟨⟩

/-- A front piece of a stream ends after some of its nodes, or inside the node behind them. -/
theorem exists_end {bs : Bytes} {stream : List (Node dialect)} (h : Each Node.Written bs stream)
    {p : Bytes} (hp : p <+: bs) :
    ∃ before, EndsAfter stream before p ∨ EndsInside stream before p := by
  induction h generalizing p with
  | nil =>
    obtain rfl := List.prefix_nil.mp hp
    exact ⟨[], .inl ⟨List.nil_prefix, .nil⟩⟩
  | @cons front rest node stream hnode hrest ih =>
    by_cases hall : front <+: p
    · -- the first node is there as a whole, and the rest of the piece is one of the other nodes
      obtain ⟨q, rfl⟩ := hall
      obtain ⟨before, hafter | hinside⟩ := ih ((List.prefix_append_right_inj front).mp hp)
      · exact ⟨node :: before, .inl ⟨List.cons_prefix_cons.mpr ⟨rfl, hafter.first⟩,
          .cons hnode hafter.written⟩⟩
      · cases hinside with
        | @intro next first head tail hfirst hwritten hnext hsome hmissing =>
          refine ⟨node :: before, .inr ?_⟩
          rw [← List.append_assoc]
          exact .intro (List.cons_prefix_cons.mpr ⟨rfl, hfirst⟩) (.cons hnode hwritten) hnext hsome
            hmissing
    · -- the piece ends before the first node does
      obtain ⟨tail, rfl⟩ : p <+: front :=
        (List.prefix_or_prefix_of_prefix hp (List.prefix_append front rest)).resolve_right hall
      have hmissing : tail ≠ [] := by
        rintro rfl
        rw [List.append_nil] at hall
        exact hall List.prefix_rfl
      by_cases hnone : p = []
      · subst hnone
        exact ⟨[], .inl ⟨List.nil_prefix, .nil⟩⟩
      · have hfirst : [] ++ [node] <+: node :: stream :=
          List.cons_prefix_cons.mpr ⟨rfl, List.nil_prefix⟩
        exact ⟨[], .inr (@EndsInside.intro _ _ _ node [] p tail hfirst .nil hnode hnone hmissing)⟩

/-! ## What is read from a front piece -/

theorem RefersBack.of_prefix {stream before : List (Node dialect)} (h : RefersBack stream)
    (hbefore : before <+: stream) : RefersBack before := by
  obtain ⟨rest, rfl⟩ := hbefore
  exact h.of_append

/-- A part of a node is not enough to read it. -/
theorem nodes_of_part {before : List (Node dialect)} {node : Node dialect} {head tail : Bytes}
    (hback : RefersBack (before ++ [node])) (hnode : node.Written (head ++ tail))
    (hhead : head ≠ []) (htail : tail ≠ []) :
    ∃ e, Stream.nodes dialect (types before) head = .error e ∧ e.RunsOut := by
  obtain ⟨found, hfound⟩ := Option.isSome_iff_exists.mp (hback.of_append.snoc_iff.mp hback)
  have hall : Stream.next dialect (types before) (head ++ tail) = .ok (found, []) :=
    ((reads_next (types before)).takes ⟨node, hnode, hfound⟩).run
  obtain ⟨e, he, hshort⟩ := (Stream.delimited_next dialect (types before)).cut hall
    (List.prefix_append head tail) fun h => htail (List.self_eq_append_right.mp h)
  refine ⟨e, ?_, hshort⟩
  rw [Stream.nodes, if_neg (fun h => hhead (List.isEmpty_iff.mp h))]
  split
  · rename_i e' he'
    exact congrArg Except.error (Except.error.inj (he'.symm.trans he))
  · rename_i hok
    cases hok.symm.trans he

/-- The bytes of some nodes that refer back are read as what the nodes stand for. -/
theorem outcome_parse {bs : Bytes} {nodes : List (Node dialect)} (h : Each Node.Written bs nodes)
    (hback : RefersBack nodes) : Outcome nodes (Descriptor.parse dialect bs) := by
  by_cases hnil : bs = []
  · obtain rfl := (Each.eq_nil_iff h).mp hnil
    subst hnil
    exact .nothing
  · rw [Descriptor.parse, if_neg (fun hempty => hnil (List.isEmpty_iff.mp hempty)),
      nodes_eq_ok_iff.mpr ⟨nodes, h, hback, rfl⟩, outcome_bind_ok]
    cases hroot : Stream.root? (types nodes) with
    | some d => exact .root ((root?_types_iff hback).mp hroot)
    | none =>
      refine .remarks (mt (Each.eq_nil_iff h).mpr hnil) fun i hi => ?_
      obtain ⟨d, hd⟩ := hback.exists_root hi
      cases hroot.symm.trans ((root?_types_iff hback).mpr hd)

end Grammar

namespace Descriptor

open Grammar

/-- Of a stream that is accepted, every front piece ends after some of its nodes or inside the node
behind them, and not all of the stream. If it ends inside a node, reading it runs out of bytes; if it
ends after a node, what is read is what the nodes before the cut stand for. -/
theorem parse_truncated {dialect : Dialect} {bs p : Bytes} {root : Descriptor}
    (h : Descriptor.parse dialect bs = .ok root) (hstarts : p <+: bs) (hproper : p ≠ bs) :
    (∃ stream : List (Node dialect), Read.Each Node.Written bs stream ∧ RefersBack stream ∧
      IsRoot stream root) ∧
    ∀ stream : List (Node dialect), Read.Each Node.Written bs stream → RefersBack stream →
      (∃ before, EndsAfter stream before p ∨ EndsInside stream before p) ∧
      (∀ before, EndsInside stream before p → ∃ needed remaining,
        Descriptor.parse dialect p = .error (.malformed (.overread needed remaining))) ∧
      ∀ before, EndsAfter stream before p →
        Outcome before (Descriptor.parse dialect p) := by
  have hne : bs ≠ [] := by
    rintro rfl
    exact hproper (List.prefix_nil.mp hstarts)
  refine ⟨(parse_eq_ok_iff hne).mp h, fun stream hwritten hback => ⟨?_, ?_, ?_⟩⟩
  · exact exists_end hwritten hstarts
  · intro before hinside
    cases hinside with
    | @intro node front head tail hfirst hfront hnode hhead htail =>
      have hstep := hback.of_prefix hfirst
      obtain ⟨e, he, needed, remaining, rfl⟩ := nodes_of_part hstep hnode hhead htail
      refine ⟨needed, remaining, ?_⟩
      -- the nodes before the cut are read, and then the part of the next one is not enough
      have hnodes : Stream.nodes dialect [] (front ++ head) = _ :=
        (@nodes_append _ front before hfront head [] hstep.of_append).trans he
      rw [Descriptor.parse, if_neg, outcome_bind_eq_error]
      · exact .inl hnodes
      · intro hempty
        exact hhead (List.append_eq_nil_iff.mp (List.isEmpty_iff.mp hempty)).2
  · rintro before ⟨hfirst, hfront⟩
    exact outcome_parse hfront (hback.of_prefix hfirst)

/-- A set of a scalar that lacks its last bytes runs out of them; without the set there is the
scalar. -/
theorem parse_truncated_set :
    let scalar : Node .v2 := .type .nil .baseScalar
    let set : Node .v2 := .type .nil (.set 0)
    let bs := Read.spellBlock scalar.spell ++ (Read.spellBlock set.spell ++ [])
    let first := Read.spellBlock scalar.spell ++ []
    let short := first ++ (Read.spellBlock set.spell).take 21
    Descriptor.parse .v2 bs = .ok (ofFields .set .nil [.element (ofFields .baseScalar .nil [])]) ∧
      (short <+: bs ∧ short ≠ bs) ∧
      (∃ needed remaining,
        Descriptor.parse .v2 short = .error (.malformed (.overread needed remaining))) ∧
      Outcome [scalar] (Descriptor.parse .v2 first) := by
  intro scalar set bs first short
  have hscalar : typeAt? [scalar] 0 = some (ofFields .baseScalar .nil []) := by
    rw [typeAt?]
    rfl
  have hroot : typeAt? [scalar, set] 1 =
      some (ofFields .set .nil [.element (ofFields .baseScalar .nil [])]) := by
    refine (@typeAt?_length .v2 [scalar] [] set).trans ?_
    have hzero : (0 : Position).toNat = 0 := rfl
    simp only [set, Node.resolve?, Body.resolve?, Body.about?, Body.fields?, hzero, hscalar]
    rfl
  have hwritten : Read.Each Node.Written bs [scalar, set] :=
    .cons ⟨rfl, by decide⟩ (.cons ⟨rfl, by decide⟩ .nil)
  have hback : RefersBack [scalar, set] := by
    rintro (_ | _ | i) node hnode p hp
    · obtain rfl := Option.some.inj hnode
      cases hp
    · obtain rfl := Option.some.inj hnode
      obtain rfl := List.mem_singleton.mp hp
      exact ⟨by decide, scalar, rfl, rfl⟩
    · cases hnode
  have hparse := (parse_eq_ok_iff (by decide)).mpr ⟨[scalar, set], hwritten, hback, 1, hroot,
    fun j hj => Nat.le_of_lt_succ hj.lt⟩
  have hstarts : short <+: bs := by decide
  have hproper : short ≠ bs := by decide
  have hfirst : Read.Each Node.Written first [scalar] := .cons ⟨rfl, by decide⟩ .nil
  have hset : set.Written
      ((Read.spellBlock set.spell).take 21 ++ (Read.spellBlock set.spell).drop 21) :=
    ⟨List.take_append_drop 21 _, by decide⟩
  refine ⟨hparse, ⟨hstarts, hproper⟩, ?_, ?_⟩
  · exact ((parse_truncated hparse hstarts hproper).2 _ hwritten hback).2.1 [scalar]
      (.intro List.prefix_rfl hfirst hset (by decide) (by decide))
  · have hboundary : first <+: bs := by decide
    exact ((parse_truncated hparse hboundary (by decide)).2 _ hwritten hback).2.2 [scalar]
      ⟨⟨[set], rfl⟩, hfirst⟩

end Descriptor

end TypedWire
