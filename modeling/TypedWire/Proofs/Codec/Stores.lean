import TypedWire.Codec.Decode
import TypedWire.Proofs.Shape.Leaf

/-!
# Stores at leaves

- `Record.AtLeaf`: a value that can be stored at a path, because it is of the shape of a leaf there.
- `Record.StoredAll`: what stores do to a record, leaf by leaf.
- `Record.storeAll_ok`: stores at leaves find their slots, whatever their order.
- `Record.slot?_storeAll_of_apart`: what stores leave as it is.
- `Record.StoredAll.pair`: two records after stores that go to their leaves alike.
-/

namespace TypedWire

namespace Record

/-- Stores are carried out one after the other. -/
theorem storeAll_append (rec : Record) (before later : List Store) :
    rec.storeAll (before ++ later) = match rec.storeAll before with
      | (.ok (), rec) => rec.storeAll later
      | (.error e, rec) => (.error e, rec) := by
  induction before generalizing rec with
  | nil => rfl
  | cons st before ih =>
    obtain ⟨path, value⟩ := st
    rw [List.cons_append, storeAll, storeAll]
    cases Record.setSlot? rec value path with
    | none => rfl
    | some rec => exact ih rec

/-- The path leads to a leaf, and the value is of its shape. -/
def AtLeaf (members : List (Member Shape)) (path : StoragePath) (v : Value) : Prop :=
  ∃ shape, Leaf members path shape ∧ v.Conforms shape

/-- What stores do to a record of the members: a leaf holds the value of the last of the stores to
it, or what it held before. -/
structure StoredAll (members : List (Member Shape)) (stores : List Store) (rec rec' : Record) :
    Prop where
  conforms : rec'.Conforms members
  last : ∀ {path : StoragePath} {shape : Shape}, Leaf members path shape →
    (∃ (i : Nat) (st : Store), stores[i]? = some st ∧ st.path = path ∧
      (∀ (j : Nat) later, i < j → stores[j]? = some later → later.path ≠ path) ∧
        rec'.slot? path = some st.value) ∨
      ((∀ st ∈ stores, st.path ≠ path) ∧ rec'.slot? path = rec.slot? path)

/-- A leaf holds the value of a store to it, or what it held before. -/
theorem StoredAll.leaf {members : List (Member Shape)} {stores : List Store} {rec rec' : Record}
    (h : StoredAll members stores rec rec') {path : StoragePath} {shape : Shape}
    (hleaf : Leaf members path shape) :
    (∃ st ∈ stores, st.path = path ∧ rec'.slot? path = some st.value) ∨
      ((∀ st ∈ stores, st.path ≠ path) ∧ rec'.slot? path = rec.slot? path) := by
  rcases h.last hleaf with ⟨i, st, hst, hpath, -, hslot⟩ | hnone
  · exact .inl ⟨st, List.mem_of_getElem? hst, hpath, hslot⟩
  · exact .inr hnone

/-- A leaf holds the value of a store to it that no later one goes to. -/
theorem StoredAll.slot?_of_last {members : List (Member Shape)} {before later : List Store}
    {st : Store} {rec rec' : Record} {shape : Shape}
    (h : StoredAll members (before ++ st :: later) rec rec') (hleaf : Leaf members st.path shape)
    (hlater : ∀ st' ∈ later, st'.path ≠ st.path) : rec'.slot? st.path = some st.value := by
  have hst : (before ++ st :: later)[before.length]? = some st := by
    rw [List.getElem?_append_right (Nat.le_refl _), Nat.sub_self, List.getElem?_cons_zero]
  rcases h.last hleaf with ⟨i, last, hi, hpath, hlast, hslot⟩ | ⟨hnone, -⟩
  · -- the last store to the leaf is neither before nor behind the given one
    have hat : i = before.length := by
      rcases Nat.lt_trichotomy i before.length with hlt | heq | hgt
      · exact (hlast _ st hlt hst rfl).elim
      · exact heq
      · obtain ⟨k, rfl⟩ := Nat.exists_eq_add_of_lt hgt
        rw [List.getElem?_append_right (by omega), Nat.add_assoc, Nat.add_sub_cancel_left,
          List.getElem?_cons_succ] at hi
        exact (hlater last (List.mem_of_getElem? hi) hpath).elim
    subst hat
    obtain rfl := Option.some.inj (hst.symm.trans hi)
    exact hslot
  · exact (hnone st (List.mem_append_right _ List.mem_cons_self) rfl).elim

/-- Stores of fitting values at leaves are all carried out. -/
theorem storeAll_ok {members : List (Member Shape)} {stores : List Store} {rec : Record}
    (h : ∀ st ∈ stores, AtLeaf members st.path st.value) (hrec : rec.Conforms members) :
    ∃ rec', rec.storeAll stores = (.ok (), rec') ∧ StoredAll members stores rec rec' := by
  induction stores generalizing rec with
  | nil => exact ⟨rec, rfl, hrec, fun _ => .inr ⟨List.forall_mem_nil _, rfl⟩⟩
  | cons st stores ih =>
    obtain ⟨path, v⟩ := st
    obtain ⟨shape, hleaf, hv⟩ := h _ List.mem_cons_self
    -- the first store finds its slot and leaves a record of the members, as the others need it
    obtain ⟨mid, hset, hstored⟩ := hleaf.store hv hrec
    obtain ⟨rec', hrest, hall⟩ :=
      ih (fun st hst => h st (List.mem_cons_of_mem _ hst)) hstored.conforms
    refine ⟨rec', ?_, hall.conforms, ?_⟩
    · rw [storeAll, hset]
      exact hrest
    · intro path' shape' hleaf'
      rcases hall.last hleaf' with ⟨i, st, hst, hpath, hlast, hslot⟩ | ⟨hnone, hslot⟩
      · refine .inl ⟨i + 1, st, hst, hpath, ?_, hslot⟩
        rintro (_ | j) later hj hlater
        · omega
        · exact hlast j later (Nat.lt_of_succ_lt_succ hj) hlater
      · -- no later store goes to this leaf, so the first one decides if it goes there
        by_cases hpath : path' = path
        · subst hpath
          refine .inl ⟨0, ⟨path', v⟩, rfl, rfl, ?_, hslot.trans hstored.here⟩
          rintro (_ | j) later hj hlater
          · omega
          · exact hnone later (List.mem_of_getElem? hlater)
        · refine .inr ⟨?_, hslot.trans (hstored.elsewhere hleaf' hpath)⟩
          rintro st (_ | ⟨_, hst⟩)
          · exact fun heq => hpath heq.symm
          · exact hnone st hst

/-- Stores leave every slot as it is that is neither inside nor around one of theirs. -/
theorem slot?_storeAll_of_apart {stores : List Store} {rec : Record} {path : StoragePath}
    (h : ∀ st ∈ stores, ¬st.path <+: path ∧ ¬path <+: st.path) :
    (rec.storeAll stores).2.slot? path = rec.slot? path := by
  induction stores generalizing rec with
  | nil => rfl
  | cons st stores ih =>
    obtain ⟨hin, haround⟩ := h st List.mem_cons_self
    rw [storeAll]
    split
    · rename_i mid hset
      exact (ih fun st hst => h st (List.mem_cons_of_mem _ hst)).trans
        (slot?_setSlot?_of_apart hset hin haround)
    · rfl

/-- Two lists of stores that go to a leaf each at the same positions leave the values of the last
such position there, or both leaves as they were. -/
theorem StoredAll.pair {members members' : List (Member Shape)} {stores stores' : List Store}
    {rec rec' out out' : Record} {path path' : StoragePath} {shape shape' : Shape}
    (h : StoredAll members stores rec out) (h' : StoredAll members' stores' rec' out')
    (hleaf : Leaf members path shape) (hleaf' : Leaf members' path' shape')
    (hlen : stores.length = stores'.length)
    (haligned : ∀ (i : Nat) st st', stores[i]? = some st → stores'[i]? = some st' →
      (st.path = path ↔ st'.path = path')) :
    (∃ (i : Nat) (st st' : Store), stores[i]? = some st ∧ stores'[i]? = some st' ∧
      st.path = path ∧ st'.path = path' ∧
      (∀ (j : Nat) later, i < j → stores[j]? = some later → later.path ≠ path) ∧
      (∀ (j : Nat) later, i < j → stores'[j]? = some later → later.path ≠ path') ∧
      out.slot? path = some st.value ∧ out'.slot? path' = some st'.value) ∨
      ((∀ st ∈ stores, st.path ≠ path) ∧ (∀ st ∈ stores', st.path ≠ path') ∧
        out.slot? path = rec.slot? path ∧ out'.slot? path' = rec'.slot? path') := by
  -- a store of the one list has a partner in the other
  have hpartner : ∀ {l l' : List Store}, l.length = l'.length → ∀ {i : Nat} {st : Store},
      l[i]? = some st → ∃ st', l'[i]? = some st' := by
    intro l l' hlen i st hst
    exact ⟨_, List.getElem?_eq_getElem (hlen ▸ (List.getElem?_eq_some_iff.mp hst).1)⟩
  rcases h.last hleaf with ⟨i, st, hst, hpath, hlast, hslot⟩ | ⟨hnone, hslot⟩
  · obtain ⟨st', hst'⟩ := hpartner hlen hst
    have hpath' : st'.path = path' := (haligned i st st' hst hst').mp hpath
    rcases h'.last hleaf' with ⟨j, later, hlater, hgoes, hlast', hslot'⟩ | ⟨hnone', -⟩
    · -- the last stores of the two lists stand at one position
      have hj : j = i := by
        obtain ⟨partner, hpartner'⟩ := hpartner hlen.symm hlater
        rcases Nat.lt_trichotomy j i with hlt | heq | hgt
        · exact (hlast' i st' hlt hst' hpath').elim
        · exact heq
        · have hfirst := (haligned j partner later hpartner' hlater).mpr hgoes
          exact (hlast j partner hgt hpartner' hfirst).elim
      subst hj
      obtain rfl := Option.some.inj (hst'.symm.trans hlater)
      exact .inl ⟨j, st, st', hst, hst', hpath, hpath', hlast, hlast', hslot, hslot'⟩
    · exact (hnone' st' (List.mem_of_getElem? hst') hpath').elim
  · rcases h'.last hleaf' with ⟨j, st', hst', hpath', -, -⟩ | ⟨hnone', hslot'⟩
    · obtain ⟨st, hst⟩ := hpartner hlen.symm hst'
      have hpath := (haligned j st st' hst hst').mpr hpath'
      exact (hnone st (List.mem_of_getElem? hst) hpath).elim
    · exact .inr ⟨hnone, hnone', hslot, hslot'⟩

end Record

/-- A read of fields with stores at leaves settles as the read ends. -/
theorem settle_ok {members : List (Member Shape)} {stores : List Store} {rec : Record}
    (left : Bytes) (h : ∀ st ∈ stores, Record.AtLeaf members st.path st.value)
    (hrec : rec.Conforms members) :
    ∃ rec', settle rec (.ok (stores, left)) = (.ok left, rec') ∧
      Record.StoredAll members stores rec rec' := by
  obtain ⟨rec', hrun, hall⟩ := Record.storeAll_ok h hrec
  exact ⟨rec', by rw [settle, hrun], hall⟩

theorem settle_error {members : List (Member Shape)} {i : Interrupted} {rec : Record}
    (h : ∀ st ∈ i.done, Record.AtLeaf members st.path st.value) (hrec : rec.Conforms members) :
    ∃ rec', settle rec (.error i) = (.error i.cause, rec') ∧
      Record.StoredAll members i.done rec rec' := by
  obtain ⟨rec', hrun, hall⟩ := Record.storeAll_ok h hrec
  exact ⟨rec', by rw [settle, hrun], hall⟩

end TypedWire
