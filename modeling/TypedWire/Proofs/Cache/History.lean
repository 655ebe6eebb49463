import Mathlib.Data.Finset.Card
import Mathlib.Data.List.DropRight
import TypedWire.Cache

/-!
# What a cache answers after a history of calls

The cache of a session is a memory of its calls: what it answers is told by the calls since it was
last cleared, without a look into its tables.

- `Call`: a call to a cache; `run` is the cache after a history of calls.
- `firstBound?`, `firstAnnounced?`: the first call since the last clear that binds under a key, or
  announces under an identifier.
- `Recalls`: the tables of a cache agree with a history; every call keeps it so.
- `Answers`: what a cache answers, by a history.
- `run_answers`: after every history a cache answers by it.
-/

namespace TypedWire.Cache

/-- A call to the cache of a session. -/
inductive Call where
  | descriptor (id : Uuid) (bytes : Bytes) (dialect : Dialect)
  | bind (d : Descriptor) (required : Bool) (shape : Shape)
  | clear

namespace Call

/-- Whether a call clears the cache. -/
def isClear : Call → Bool
  | .clear => true
  | _ => false

/-- What a call binds under. -/
def key? : Call → Option CodecKey
  | .bind d required shape => some ⟨d.id, required, shape⟩
  | _ => none

/-- The type that a call binds, if it binds under the key. -/
def bound? (key : CodecKey) : Call → Option Descriptor
  | .bind d required shape =>
    if (⟨d.id, required, shape⟩ : CodecKey) = key then some d else none
  | _ => none

/-- The type that a call announces, if it does so under the identifier and the root has it. -/
def announced? (dialect : Dialect) (id : Uuid) : Call → Option Descriptor
  | .descriptor id' bytes dialect' =>
    if (dialect', id') = (dialect, id) then
      (Descriptor.parse dialect bytes).toOption.filter (·.id = id)
    else none
  | _ => none

theorem bound?_bind (key : CodecKey) (d : Descriptor) (required : Bool) (shape : Shape) :
    bound? key (.bind d required shape) = if ⟨d.id, required, shape⟩ = key then some d else none :=
  rfl

theorem bound?_eq_some {key : CodecKey} {call : Call} {d : Descriptor}
    (h : call.bound? key = some d) : call = .bind d key.required key.shape ∧ d.id = key.id := by
  cases call with
  | bind d' required shape =>
    obtain ⟨rfl, hd⟩ := Option.ite_none_right_eq_some.mp h
    obtain rfl := Option.some.inj hd
    exact ⟨rfl, rfl⟩
  | descriptor _ _ _ | clear => cases h

/-- A call announces the type that its bytes hold, if that has the identifier. -/
theorem announced?_self_eq_some_iff {dialect : Dialect} {id : Uuid} {bytes : Bytes}
    {d : Descriptor} : (Call.descriptor id bytes dialect).announced? dialect id = some d ↔
      Descriptor.parse dialect bytes = .ok d ∧ d.id = id := by
  rw [announced?, if_pos rfl]
  cases Descriptor.parse dialect bytes with
  | error e => simp [Except.toOption]
  | ok d' =>
    rw [Except.toOption, Option.filter_eq_some_iff, decide_eq_true_eq, Option.some.injEq,
      Except.ok.injEq]

/-- What is announced under an identifier has it. -/
theorem id_of_announced? {dialect : Dialect} {id : Uuid} {call : Call} {d : Descriptor}
    (h : call.announced? dialect id = some d) : d.id = id := by
  cases call with
  | descriptor id' bytes dialect' =>
    obtain ⟨-, h⟩ := Option.ite_none_right_eq_some.mp h
    exact of_decide_eq_true (Option.filter_eq_some_iff.mp h).2
  | bind _ _ _ | clear => cases h

end Call

/-! ## Histories -/

/-- The calls since the last clear. -/
def recent (calls : List Call) : List Call := calls.rtakeWhile fun call => !call.isClear

/-- The type of the first call since the last clear that binds under the key. -/
def firstBound? (key : CodecKey) (calls : List Call) : Option Descriptor :=
  (recent calls).findSome? (Call.bound? key)

/-- The type of the first call since the last clear that announces one under the identifier. -/
def firstAnnounced? (dialect : Dialect) (id : Uuid) (calls : List Call) : Option Descriptor :=
  (recent calls).findSome? (Call.announced? dialect id)

/-- The keys of the calls since the last clear. -/
def recentKeys (calls : List Call) : Finset CodecKey :=
  ((recent calls).filterMap Call.key?).toFinset

/-- Whether the call at a position is the first since the last clear that binds under its key. -/
def isFirstBind (calls : List Call) (i : Nat) : Bool :=
  (calls[i]?.bind Call.key?).any fun key => (firstBound? key (calls.take i)).isNone

/-- How many calls of a history are the first since the last clear that bind under their key. -/
def firstBinds (calls : List Call) : Nat := (List.range calls.length).countP (isFirstBind calls)

section

variable {calls : List Call} {call : Call}

theorem recent_concat_clear : recent (calls ++ [.clear]) = [] :=
  List.rtakeWhile_concat_neg _ _ _ (by simp [Call.isClear])

theorem recent_concat (h : call.isClear = false) :
    recent (calls ++ [call]) = recent calls ++ [call] :=
  List.rtakeWhile_concat_pos _ _ _ (by simp [h])

theorem firstBound?_concat (key : CodecKey) (h : call.isClear = false) :
    firstBound? key (calls ++ [call]) = (firstBound? key calls).or (call.bound? key) := by
  rw [firstBound?, recent_concat h, List.findSome?_append, List.findSome?_singleton]
  rfl

theorem firstAnnounced?_concat (dialect : Dialect) (id : Uuid) (h : call.isClear = false) :
    firstAnnounced? dialect id (calls ++ [call]) =
      (firstAnnounced? dialect id calls).or (call.announced? dialect id) := by
  rw [firstAnnounced?, recent_concat h, List.findSome?_append, List.findSome?_singleton]
  rfl

/-- A key is one of the recent ones exactly if some call has bound under it. -/
theorem mem_recentKeys_iff {key : CodecKey} :
    key ∈ recentKeys calls ↔ firstBound? key calls ≠ none := by
  rw [recentKeys, List.mem_toFinset, List.mem_filterMap, firstBound?, ne_eq,
    List.findSome?_eq_none_iff]
  constructor
  · rintro ⟨call, hcall, hkey⟩ hnone
    cases call with
    | bind d required shape =>
      obtain rfl := Option.some.inj hkey
      have := hnone _ hcall
      rw [Call.bound?_bind, if_pos rfl] at this
      cases this
    | descriptor _ _ _ | clear => cases hkey
  · intro hsome
    obtain ⟨call, hcall, d, hd⟩ : ∃ call ∈ recent calls, ∃ d, call.bound? key = some d := by
      by_contra hnot
      refine hsome fun call hcall => ?_
      cases hd : call.bound? key with
      | none => rfl
      | some d => exact (hnot ⟨call, hcall, d, hd⟩).elim
    obtain ⟨rfl, hid⟩ := Call.bound?_eq_some hd
    exact ⟨_, hcall, by rw [Call.key?, hid]⟩

theorem recentKeys_concat (h : call.isClear = false) : recentKeys (calls ++ [call]) =
    call.key?.elim (recentKeys calls) fun key => insert key (recentKeys calls) := by
  rw [recentKeys, recent_concat h, List.filterMap_append, List.toFinset_append]
  cases hkey : call.key? with
  | none =>
    rw [List.filterMap_cons_none hkey]
    exact Finset.union_empty _
  | some key =>
    rw [List.filterMap_cons_some hkey]
    exact (Finset.union_comm _ _).trans (Finset.insert_eq _ _).symm

theorem firstBinds_concat : firstBinds (calls ++ [call]) =
    firstBinds calls + if call.key?.any fun key => (firstBound? key calls).isNone then 1 else 0 := by
  have hbefore : ∀ i ∈ List.range calls.length,
      isFirstBind (calls ++ [call]) i = true ↔ isFirstBind calls i = true := by
    intro i hi
    have hlt : i < calls.length := List.mem_range.mp hi
    rw [isFirstBind, isFirstBind, List.getElem?_append_left hlt,
      List.take_append_of_le_length hlt.le]
  have hlast : isFirstBind (calls ++ [call]) calls.length =
      call.key?.any fun key => (firstBound? key calls).isNone := by
    rw [isFirstBind, List.getElem?_concat_length, List.take_left]
    rfl
  rw [firstBinds, List.length_append, List.length_singleton, List.range_succ, List.countP_append,
    List.countP_congr hbefore, List.countP_singleton, hlast]
  rfl

end

/-! ## The tables and the history -/

/-- The cache after one more call. -/
def after (c : Cache) : Call → Cache
  | .descriptor id bytes dialect => (c.descriptor id bytes dialect).2
  | .bind d required shape => (c.bind d required shape).2
  | .clear => c.clear

/-- The cache of a session after a history of calls. -/
def run (calls : List Call) : Cache := calls.foldl after empty

/-- The tables of a cache agree with a history. -/
structure Recalls (calls : List Call) (c : Cache) : Prop where
  codecs : ∀ key : CodecKey, c.codecs.lookup key =
    (firstBound? key calls).map fun d => d.bind key.required key.shape
  descriptors : ∀ dialect id,
    c.descriptors.lookup (dialect, id) = firstAnnounced? dialect id calls
  builds : c.builds = firstBinds calls
  size : c.size = (recentKeys calls).card
  stored : ∀ entry ∈ c.descriptors, entry.2.id = entry.1.2

section

variable {calls : List Call} {c : Cache}

/-! ### What a call does to a cache that agrees with a history -/

theorem Recalls.bind_known (h : Recalls calls c) {d first : Descriptor} {required : Bool}
    {shape : Shape} (hfirst : firstBound? ⟨d.id, required, shape⟩ calls = some first) :
    c.bind d required shape = (first.bind required shape, c) := by
  have hlookup := h.codecs ⟨d.id, required, shape⟩
  rw [hfirst, Option.map_some] at hlookup
  unfold Cache.bind
  dsimp only
  rw [hlookup]

theorem Recalls.bind_new (h : Recalls calls c) {d : Descriptor} {required : Bool} {shape : Shape}
    (hfirst : firstBound? ⟨d.id, required, shape⟩ calls = none) :
    c.bind d required shape = (d.bind required shape, { c with
      codecs := (⟨d.id, required, shape⟩, d.bind required shape) :: c.codecs
      builds := c.builds + 1 }) := by
  have hlookup := h.codecs ⟨d.id, required, shape⟩
  rw [hfirst, Option.map_none] at hlookup
  unfold Cache.bind
  dsimp only
  rw [hlookup]

theorem Recalls.descriptor_known (h : Recalls calls c) {id : Uuid} {dialect : Dialect}
    {first : Descriptor} (hfirst : firstAnnounced? dialect id calls = some first) (bytes : Bytes) :
    c.descriptor id bytes dialect = (.ok first, c) := by
  rw [Cache.descriptor, h.descriptors, hfirst]

theorem Recalls.descriptor_new (h : Recalls calls c) {id : Uuid} {bytes : Bytes}
    {dialect : Dialect} {d : Descriptor} (hfirst : firstAnnounced? dialect id calls = none)
    (hd : (Call.descriptor id bytes dialect).announced? dialect id = some d) :
    c.descriptor id bytes dialect =
      (.ok d, { c with descriptors := ((dialect, id), d) :: c.descriptors }) := by
  obtain ⟨hparse, hid⟩ := Call.announced?_self_eq_some_iff.mp hd
  rw [Cache.descriptor, h.descriptors, hfirst]
  dsimp only
  rw [hparse]
  dsimp only
  rw [if_pos hid]

/-- Why a call announces no type: its bytes hold none, or one with another identifier. -/
inductive Unannounced (dialect : Dialect) (id : Uuid) (bytes : Bytes) : ParseError → Prop
  | malformed {e : ParseError} (parse : Descriptor.parse dialect bytes = .error e) :
      Unannounced dialect id bytes e
  | other {d : Descriptor} (parse : Descriptor.parse dialect bytes = .ok d) (ne : d.id ≠ id) :
      Unannounced dialect id bytes (.idMismatch id d.id)

theorem Recalls.descriptor_failing (h : Recalls calls c) {id : Uuid} {bytes : Bytes}
    {dialect : Dialect} (hfirst : firstAnnounced? dialect id calls = none)
    (hd : (Call.descriptor id bytes dialect).announced? dialect id = none) :
    ∃ e, c.descriptor id bytes dialect = (.error e, c) ∧ Unannounced dialect id bytes e := by
  rw [Cache.descriptor, h.descriptors, hfirst]
  dsimp only
  cases hparse : Descriptor.parse dialect bytes with
  | error e => exact ⟨e, rfl, .malformed hparse⟩
  | ok d =>
    have hid : d.id ≠ id := by
      intro hid
      rw [Call.announced?_self_eq_some_iff.mpr ⟨hparse, hid⟩] at hd
      cases hd
    dsimp only
    rw [if_neg hid]
    exact ⟨_, rfl, .other hparse hid⟩

/-! ### Every call keeps the agreement -/

theorem recalls_nil : Recalls [] empty where
  codecs _ := rfl
  descriptors _ _ := rfl
  builds := rfl
  size := rfl
  stored := List.forall_mem_nil _

/-- Clearing forgets the tables and keeps the count. -/
theorem Recalls.clear (h : Recalls calls c) : Recalls (calls ++ [.clear]) c.clear where
  codecs key := by
    rw [firstBound?, recent_concat_clear]
    rfl
  descriptors dialect id := by
    rw [firstAnnounced?, recent_concat_clear]
    rfl
  builds := by
    rw [firstBinds_concat]
    exact h.builds
  size := by
    rw [recentKeys, recent_concat_clear]
    rfl
  stored := List.forall_mem_nil _

/-- A cache does not tell histories apart whose first calls are the same. -/
theorem Recalls.congr {calls' : List Call} (h : Recalls calls c)
    (hbound : ∀ key, firstBound? key calls' = firstBound? key calls)
    (hannounced : ∀ dialect id, firstAnnounced? dialect id calls' = firstAnnounced? dialect id calls)
    (hbuilds : firstBinds calls' = firstBinds calls) (hkeys : recentKeys calls' = recentKeys calls) :
    Recalls calls' c where
  codecs key := by rw [hbound, h.codecs]
  descriptors dialect id := by rw [hannounced, h.descriptors]
  builds := by rw [hbuilds, h.builds]
  size := by rw [hkeys, h.size]
  stored := h.stored

/-- Binding makes an entry for a key that the history does not know. -/
theorem Recalls.bind (h : Recalls calls c) (d : Descriptor) (required : Bool) (shape : Shape) :
    Recalls (calls ++ [.bind d required shape]) (c.bind d required shape).2 := by
  have hclear : (Call.bind d required shape).isClear = false := rfl
  have hannounced : ∀ dialect id, firstAnnounced? dialect id (calls ++ [.bind d required shape]) =
      firstAnnounced? dialect id calls := fun dialect id => by
    rw [firstAnnounced?_concat dialect id hclear]
    exact Option.or_none
  cases hfirst : firstBound? ⟨d.id, required, shape⟩ calls with
  | some first =>
    -- a call under a known key is nowhere the first
    have hmem : (⟨d.id, required, shape⟩ : CodecKey) ∈ recentKeys calls :=
      mem_recentKeys_iff.mpr (by rw [hfirst]; exact Option.some_ne_none first)
    rw [h.bind_known hfirst]
    refine h.congr (fun key => ?_) hannounced ?_ ?_
    · rw [firstBound?_concat key hclear, Call.bound?_bind]
      split
      · rename_i hkey
        rw [← hkey, hfirst]
        rfl
      · rw [Option.or_none]
    · rw [firstBinds_concat, Call.key?, Option.any_some, hfirst]
      rfl
    · rw [recentKeys_concat hclear, Call.key?, Option.elim_some, Finset.insert_eq_of_mem hmem]
  | none =>
    have hnot : (⟨d.id, required, shape⟩ : CodecKey) ∉ recentKeys calls :=
      fun hmem => mem_recentKeys_iff.mp hmem hfirst
    rw [h.bind_new hfirst]
    refine ⟨fun key => ?_, fun dialect id => ?_, ?_, ?_, h.stored⟩
    · rw [List.lookup_cons, firstBound?_concat key hclear, Call.bound?_bind]
      by_cases hkey : (⟨d.id, required, shape⟩ : CodecKey) = key
      · subst hkey
        rw [beq_self_eq_true, hfirst, if_pos rfl]
        rfl
      · rw [beq_false_of_ne (Ne.symm hkey), if_neg hkey, Option.or_none]
        exact h.codecs key
    · rw [hannounced]
      exact h.descriptors dialect id
    · rw [firstBinds_concat, Call.key?, Option.any_some, hfirst, ← h.builds]
      rfl
    · rw [recentKeys_concat hclear, Call.key?, Option.elim_some,
        Finset.card_insert_of_notMem hnot, ← h.size]
      rfl

section

variable {id : Uuid} {bytes : Bytes} {dialect : Dialect}

theorem firstBound?_concat_descriptor (key : CodecKey) :
    firstBound? key (calls ++ [.descriptor id bytes dialect]) = firstBound? key calls := by
  rw [firstBound?_concat key rfl]
  exact Option.or_none

theorem firstAnnounced?_concat_of_ne {dialect' : Dialect} {id' : Uuid}
    (hne : (dialect', id') ≠ (dialect, id)) :
    firstAnnounced? dialect' id' (calls ++ [.descriptor id bytes dialect]) =
      firstAnnounced? dialect' id' calls := by
  rw [firstAnnounced?_concat dialect' id' rfl, Call.announced?, if_neg (Ne.symm hne),
    Option.or_none]

/-- A descriptor that does not become the first under its identifier is not remembered. -/
theorem Recalls.descriptor_same (h : Recalls calls c)
    (hsame : firstAnnounced? dialect id (calls ++ [.descriptor id bytes dialect]) =
      firstAnnounced? dialect id calls) : Recalls (calls ++ [.descriptor id bytes dialect]) c := by
  refine h.congr firstBound?_concat_descriptor (fun dialect' id' => ?_) firstBinds_concat
    (recentKeys_concat rfl)
  by_cases heq : (dialect', id') = (dialect, id)
  · obtain ⟨rfl, rfl⟩ := Prod.mk.inj heq
    exact hsame
  · exact firstAnnounced?_concat_of_ne heq

end

/-- A descriptor is remembered if it is the first under its identifier and has it. -/
theorem Recalls.descriptor (h : Recalls calls c) (id : Uuid) (bytes : Bytes) (dialect : Dialect) :
    Recalls (calls ++ [.descriptor id bytes dialect]) (c.descriptor id bytes dialect).2 := by
  have hown : firstAnnounced? dialect id (calls ++ [.descriptor id bytes dialect]) =
      (firstAnnounced? dialect id calls).or
        ((Call.descriptor id bytes dialect).announced? dialect id) :=
    firstAnnounced?_concat dialect id rfl
  cases hfirst : firstAnnounced? dialect id calls with
  | some first =>
    rw [h.descriptor_known hfirst]
    exact h.descriptor_same (by rw [hown, hfirst, Option.some_or])
  | none =>
    rw [hfirst, Option.none_or] at hown
    cases hd : (Call.descriptor id bytes dialect).announced? dialect id with
    | none =>
      obtain ⟨e, hrun, -⟩ := h.descriptor_failing hfirst hd
      rw [hrun]
      exact h.descriptor_same (by rw [hown, hd, hfirst])
    | some d =>
      rw [h.descriptor_new hfirst hd]
      refine ⟨fun key => ?_, fun dialect' id' => ?_, ?_, ?_, ?_⟩
      · rw [firstBound?_concat_descriptor]
        exact h.codecs key
      · rw [List.lookup_cons]
        by_cases heq : (dialect', id') = (dialect, id)
        · obtain ⟨rfl, rfl⟩ := Prod.mk.inj heq
          rw [beq_self_eq_true, hown, hd]
        · rw [beq_false_of_ne heq, firstAnnounced?_concat_of_ne heq]
          exact h.descriptors dialect' id'
      · rw [firstBinds_concat]
        exact h.builds
      · rw [recentKeys_concat rfl]
        exact h.size
      · exact List.forall_mem_cons.mpr ⟨Call.id_of_announced? hd, h.stored⟩

/-- After every history the tables of a cache agree with it. -/
theorem recalls_run (calls : List Call) : Recalls calls (run calls) := by
  induction calls using List.reverseRecOn with
  | nil => exact recalls_nil
  | append_singleton calls call ih =>
    rw [run, List.foldl_concat]
    cases call with
    | descriptor id bytes dialect => exact ih.descriptor id bytes dialect
    | bind d required shape => exact ih.bind d required shape
    | clear => exact ih.clear

end

/-! ## What a cache answers -/

/-- What a cache answers, by a history of calls. The history of a call's answer ends with the call
itself. -/
structure Answers (calls : List Call) (c : Cache) : Prop where
  /-- A codec, or why there is none, is that of the first type bound under the key. -/
  bind : ∀ d required shape, ∃ first,
    firstBound? ⟨d.id, required, shape⟩ (calls ++ [.bind d required shape]) = some first ∧
      (c.bind d required shape).1 = first.bind required shape
  /-- If an identifier stands for one type, it is that of the type itself. -/
  bind_own : ∀ d required shape,
    (∀ d' required' shape', .bind d' required' shape' ∈ recent calls → d'.id = d.id → d' = d) →
      (c.bind d required shape).1 = d.bind required shape
  /-- Types are bound by first calls only, and clearing does not change how many there were. -/
  builds : c.builds = firstBinds calls
  /-- What is remembered are the keys since the last clear. -/
  size : c.size = (recentKeys calls).card
  /-- A descriptor is the first that was announced under the identifier and has it. -/
  announced : ∀ id bytes dialect d,
    firstAnnounced? dialect id (calls ++ [.descriptor id bytes dialect]) = some d →
      (c.descriptor id bytes dialect).1 = .ok d
  /-- If there is none, the call says why its own bytes hold none. -/
  unannounced : ∀ id bytes dialect,
    firstAnnounced? dialect id (calls ++ [.descriptor id bytes dialect]) = none →
      ∃ e, (c.descriptor id bytes dialect).1 = .error e ∧ Unannounced dialect id bytes e
  /-- A call that gives no descriptor changes nothing. -/
  failing : ∀ id bytes dialect e, (c.descriptor id bytes dialect).1 = .error e →
    (c.descriptor id bytes dialect).2 = c
  /-- A descriptor has the identifier that it is remembered under. -/
  stored : ∀ entry ∈ c.descriptors, entry.2.id = entry.1.2

section

variable {calls : List Call} {c : Cache}

theorem Recalls.bind_first (h : Recalls calls c) (d : Descriptor) (required : Bool)
    (shape : Shape) : ∃ first,
      firstBound? ⟨d.id, required, shape⟩ (calls ++ [.bind d required shape]) = some first ∧
        (c.bind d required shape).1 = first.bind required shape := by
  rw [firstBound?_concat _ rfl, Call.bound?_bind, if_pos rfl]
  cases hfirst : firstBound? ⟨d.id, required, shape⟩ calls with
  | some first => exact ⟨first, rfl, by rw [h.bind_known hfirst]⟩
  | none => exact ⟨d, rfl, by rw [h.bind_new hfirst]⟩

theorem Recalls.bind_own (h : Recalls calls c) (d : Descriptor) (required : Bool) (shape : Shape)
    (hids : ∀ d' required' shape', .bind d' required' shape' ∈ recent calls → d'.id = d.id →
      d' = d) : (c.bind d required shape).1 = d.bind required shape := by
  cases hfirst : firstBound? ⟨d.id, required, shape⟩ calls with
  | none => rw [h.bind_new hfirst]
  | some first =>
    obtain ⟨call, hcall, hbound⟩ := List.exists_of_findSome?_eq_some hfirst
    obtain ⟨rfl, hid⟩ := Call.bound?_eq_some hbound
    rw [h.bind_known hfirst, hids first _ _ hcall hid]

/-- A call for a descriptor gives the first one, or fails for a reason of its own and changes
nothing. -/
theorem Recalls.descriptor_cases (h : Recalls calls c) (id : Uuid) (bytes : Bytes)
    (dialect : Dialect) :
    (∃ d, firstAnnounced? dialect id (calls ++ [.descriptor id bytes dialect]) = some d ∧
      (c.descriptor id bytes dialect).1 = .ok d) ∨
    (∃ e, firstAnnounced? dialect id (calls ++ [.descriptor id bytes dialect]) = none ∧
      c.descriptor id bytes dialect = (.error e, c) ∧ Unannounced dialect id bytes e) := by
  rw [firstAnnounced?_concat _ _ rfl]
  cases hfirst : firstAnnounced? dialect id calls with
  | some first => exact .inl ⟨first, rfl, by rw [h.descriptor_known hfirst]⟩
  | none =>
    cases hd : (Call.descriptor id bytes dialect).announced? dialect id with
    | some d => exact .inl ⟨d, rfl, by rw [h.descriptor_new hfirst hd]⟩
    | none =>
      obtain ⟨e, hrun, he⟩ := h.descriptor_failing hfirst hd
      exact .inr ⟨e, rfl, hrun, he⟩

/-- A cache whose tables agree with a history answers by it. -/
theorem Recalls.answers (h : Recalls calls c) : Answers calls c where
  bind := h.bind_first
  bind_own := h.bind_own
  builds := h.builds
  size := h.size
  announced id bytes dialect d hd := by
    rcases h.descriptor_cases id bytes dialect with ⟨d', hd', hrun⟩ | ⟨e, hnone, -, -⟩
    · rw [hrun, ← Option.some.inj (hd'.symm.trans hd)]
    · cases hnone.symm.trans hd
  unannounced id bytes dialect hnone := by
    rcases h.descriptor_cases id bytes dialect with ⟨d', hd', -⟩ | ⟨e, -, hrun, he⟩
    · cases hd'.symm.trans hnone
    · exact ⟨e, by rw [hrun], he⟩
  failing id bytes dialect e he := by
    rcases h.descriptor_cases id bytes dialect with ⟨d', -, hrun⟩ | ⟨e', -, hrun, -⟩
    · cases hrun.symm.trans he
    · rw [hrun]
  stored := h.stored

end

/-- After every history of calls a cache answers by the history alone. -/
theorem run_answers (calls : List Call) : Answers calls (run calls) :=
  (recalls_run calls).answers

/-- Until the next clear, a type gets the codec of another one that was bound before it under the
same key. -/
example :
    let int16 := Descriptor.ofFields .baseScalar ScalarType.int16.id []
    let array := Descriptor.ofFields .array ScalarType.int16.id [.element int16]
    let bound : Call := .bind int16 true (.scalar .int16)
    ((run [bound]).bind array true (.scalar .int16)).1 = .ok (.scalar ScalarType.int16.id .int16) ∧
      ((run [bound, .clear]).bind array true (.scalar .int16)).1 =
        .error (.shapeMismatch [] "array" "std::int16") ∧
      (run [bound, bound, .clear, bound]).builds = 2 ∧
      (run [bound, bound, .clear, bound]).size = 1 :=
  ⟨rfl, rfl, rfl, rfl⟩

end TypedWire.Cache
