import TypedWire.Proofs.Wire.Follows
import TypedWire.Proofs.Wire.Mirror
import TypedWire.Proofs.Wire.Refuses

/-!
# Operations on readers are atomic

An operation that fails leaves the reader as it was, although one of several steps has read with a
copy of it by then. One that succeeds takes exactly its bytes off the front. Readers do not notice
each other, whether one was opened inside the other or not.

- `Cursor.Refused unread op e`: `e` is why the operation fails on a reader of the unread bytes;
  `Cursor.Asks` tells the reads that it comes to.
- `Cursor.Did unread op reply left opened`: what the operation does if it succeeds.
- `Readers.run`: operations on several readers, in any order.
- `Readers.run_atomic`: what comes of one operation, and of a run.
-/

namespace TypedWire

/-- The operation that reads an item keeps all bytes if it fails. -/
theorem Pull.Keeps.item (kind : Item.Kind) : Keeps kind.pull kind.read := by
  cases kind with
  | uint8 => exact uint8.map _
  | uint16 => exact uint16.map _
  | uint32 | float32 => exact uint32.map _
  | uint64 | float64 => exact uint64.map _
  | int16 => exact int16.map _
  | int32 => exact int32.map _
  | int64 => exact int64.map _
  | uuid => exact uuid.map _
  | raw length => exact (take length).map _
  | block => exact block.map _
  | text => exact text.map _

/-! ## What comes of an operation -/

/-- The count of bytes that an item of a kind is read from, if no length stands before them. -/
def Item.Kind.width? : Kind → Option Nat
  | .uint8 => some 1
  | .uint16 | .int16 => some 2
  | .uint32 | .int32 | .float32 => some 4
  | .uint64 | .int64 | .float64 => some 8
  | .uuid => some 16
  | .raw length => some length
  | .block | .text => none

theorem Item.Kind.refuses_of_width {kind : Kind} {width : Nat} (h : kind.width? = some width) :
    Read.Refuses kind.read (Read.Short width) := by
  cases kind <;> cases h
  case uint8 => exact Read.refuses_uint8.map _
  case uint16 => exact Read.refuses_uint16.map _
  case uint32 | float32 => exact Read.refuses_uint32.map _
  case uint64 | float64 => exact Read.refuses_uint64.map _
  case int16 => exact (Read.refuses_uint16.map _).map _
  case int32 => exact (Read.refuses_uint32.map _).map _
  case int64 => exact (Read.refuses_uint64.map _).map _
  case uuid => exact Read.refuses_uuid.map _
  case raw => exact (Read.refuses_take _).map _

namespace Cursor

open Read (spellBlock spellMessage)

/-- An operation reads `needed` bytes when `remaining` are unread. One of several steps comes to the
later ones only behind what the earlier ones take. -/
inductive Asks (unread : Bytes) : Step → Nat → Nat → Prop
  | item {kind : Item.Kind} {width : Nat} (fixed : kind.width? = some width) :
      Asks unread (.item kind) width unread.length
  | peek : Asks unread .peekUInt32 4 unread.length
  | skip {length : Nat} : Asks unread (.skip length) length unread.length
  | slice {length : Nat} : Asks unread (.slice length) length unread.length
  | blockLength {kind : Item.Kind} (block : kind = .block ∨ kind = .text) :
      Asks unread (.item kind) 4 unread.length
  | blockBytes {kind : Item.Kind} {n : UInt32} {rest : Bytes} (block : kind = .block ∨ kind = .text)
      (starts : unread = BigEndian.encode 4 n.toNat ++ rest) :
      Asks unread (.item kind) n.toNat rest.length
  | tag {inside : Bool} : Asks unread (.message inside) 1 unread.length
  | messageLength {inside : Bool} {tag : UInt8} {rest : Bytes} (starts : unread = tag :: rest) :
      Asks unread (.message inside) 4 rest.length
  | body {inside : Bool} {tag : UInt8} {n : UInt32} {rest : Bytes}
      (starts : unread = tag :: (BigEndian.encode 4 n.toNat ++ rest))
      (counted : Read.messageHeader ≤ n.toNat) :
      Asks unread (.message inside) (n.toNat - Read.messageHeader) rest.length

/-- The failure is why an operation on a reader does not succeed. -/
inductive Refused (unread : Bytes) : Step → DecodeError → Prop
  /-- It reads more bytes than are unread. -/
  | overread {op : Step} {needed remaining : Nat} (asks : Asks unread op needed remaining)
      (short : remaining < needed) : Refused unread op (.overread needed remaining)
  /-- The bytes of a text are none. -/
  | invalidUtf8 {bytes left : Bytes} (starts : unread = spellBlock bytes ++ left)
      (announced : bytes.length < UInt32.size) (noText : Utf8.decode? bytes = none) :
      Refused unread (.item .text) .invalidUtf8
  /-- The length of a message does not count its own bytes. -/
  | invalidLength {inside : Bool} {tag : UInt8} {n : UInt32} {rest : Bytes}
      (starts : unread = tag :: (BigEndian.encode 4 n.toNat ++ rest))
      (short : n.toNat < Read.messageHeader) :
      Refused unread (.message inside)
        (.invalidLength "message length" Read.messageHeader n.toNat)
  | trailingBytes (unfinished : unread ≠ []) :
      Refused unread .finish (.trailingBytes unread.length)

/-- An operation gives the reply, takes its bytes off the front, and opens a reader over some of
those. -/
inductive Did (unread : Bytes) : Step → Reply → Bytes → Option Bytes → Prop
  | item {i : Item} {left : Bytes} (starts : unread = i.spell ++ left) (announced : i.Announced) :
      Did unread (.item i.kind) (.item i) left none
  | peek {n : UInt32} {rest : Bytes} (starts : unread = (Item.uint32 n).spell ++ rest) :
      Did unread .peekUInt32 (.item (.uint32 n)) unread none
  | skip {bytes left : Bytes} (starts : unread = bytes ++ left) :
      Did unread (.skip bytes.length) .nothing left none
  | finish (finished : unread = []) : Did unread .finish .nothing unread none
  | slice {bytes left : Bytes} (starts : unread = bytes ++ left) :
      Did unread (.slice bytes.length) .nothing left (some bytes)
  | message {inside : Bool} {tag : UInt8} {body left : Bytes}
      (starts : unread = spellMessage tag body ++ left)
      (announced : Read.messageHeader + body.length < UInt32.size) :
      Did unread (.message inside) (.message tag body) left (if inside then some body else none)
  | leave : Did unread .leave .nothing unread none

section

variable {α : Type} {p : Pull α} {q : Read DecodeError α} {reply : α → Reply}
  {opened : α → Option Bytes} {unread left : Bytes} {o : Option Bytes}

theorem of_eq_error_iff (h : Pull.Keeps p q) {e : DecodeError} :
    Outcome.of reply opened (p.run unread) = ⟨.error e, left, o⟩ ↔
      q unread = .error e ∧ left = unread ∧ o = none := by
  cases hq : q unread with
  | ok r => simp [h.ok hq, Outcome.of]
  | error e' => simp [h.error hq, Outcome.of, eq_comm]

theorem of_eq_ok_iff (h : Pull.Keeps p q) {r : Reply} :
    Outcome.of reply opened (p.run unread) = ⟨.ok r, left, o⟩ ↔
      ∃ a, q unread = .ok (a, left) ∧ reply a = r ∧ opened a = o := by
  cases hq : q unread with
  | ok result =>
    obtain ⟨a, mid⟩ := result
    rw [h.ok hq]
    constructor
    · intro hof
      obtain ⟨hreply, rfl, hopened⟩ := Outcome.mk.inj hof
      exact ⟨a, rfl, Except.ok.inj hreply, hopened⟩
    · rintro ⟨_, ⟨⟩, rfl, rfl⟩
      rfl
  | error e => simp [h.error hq, Outcome.of]

end

/-! ## One operation -/

theorem refused_of_block {unread : Bytes} {kind : Item.Kind} (block : kind = .block ∨ kind = .text)
    {e : DecodeError} (h : Read.Short 4 unread e ∨ ∃ (n : UInt32) (rest : Bytes),
      unread = BigEndian.encode 4 n.toNat ++ rest ∧ Read.Short n.toNat rest e) :
    Refused unread (.item kind) e := by
  rcases h with ⟨hshort, rfl⟩ | ⟨n, rest, hstarts, hshort, rfl⟩
  · exact .overread (.blockLength block) hshort
  · exact .overread (.blockBytes block hstarts) hshort

/-- An operation fails for one of the reasons only. -/
theorem refused_of_run {unread left : Bytes} {op : Step} {e : DecodeError} {o : Option Bytes}
    (h : op.run unread = ⟨.error e, left, o⟩) : Refused unread op e ∧ left = unread ∧ o = none := by
  cases op with
  | item kind =>
    obtain ⟨h, hleft⟩ := (of_eq_error_iff (.item kind)).mp h
    refine ⟨?_, hleft⟩
    cases hwidth : kind.width? with
    | some width =>
      obtain ⟨hshort, rfl⟩ := (Item.Kind.refuses_of_width hwidth _ _).mp h
      exact .overread (.item hwidth) hshort
    | none =>
      cases kind with
      | block => exact refused_of_block (.inl rfl) ((Read.refuses_block.map _ _ _).mp h)
      | text =>
        rcases (Read.refuses_text.map _ _ _).mp h with h | ⟨bytes, left, hstarts, hlt, hdecode, rfl⟩
        · exact refused_of_block (.inr rfl) h
        · exact .invalidUtf8 hstarts hlt hdecode
      | _ => cases hwidth
  | peekUInt32 =>
    obtain ⟨h, hleft⟩ := (of_eq_error_iff .peekUInt32).mp h
    obtain ⟨hshort, rfl⟩ := (Read.refuses_peekUInt32 _ _).mp h
    exact ⟨.overread .peek hshort, hleft⟩
  | skip length =>
    obtain ⟨h, hleft⟩ := (of_eq_error_iff (.skip length)).mp h
    obtain ⟨hshort, rfl⟩ := (Read.refuses_skip length _ _).mp h
    exact ⟨.overread .skip hshort, hleft⟩
  | finish =>
    obtain ⟨h, hleft⟩ := (of_eq_error_iff .finish).mp h
    obtain ⟨hunfinished, rfl⟩ := (Read.refuses_finish _ _).mp h
    exact ⟨.trailingBytes hunfinished, hleft⟩
  | slice length =>
    obtain ⟨h, hleft⟩ := (of_eq_error_iff (.take length)).mp h
    obtain ⟨hshort, rfl⟩ := (Read.refuses_take length _ _).mp h
    exact ⟨.overread .slice hshort, hleft⟩
  | message inside =>
    obtain ⟨h, hleft⟩ := (of_eq_error_iff .message).mp h
    refine ⟨?_, hleft⟩
    rcases (Read.refuses_message _ _).mp h with ⟨hshort, rfl⟩ | ⟨tag, rest, rfl,
      ⟨hshort, rfl⟩ | ⟨n, body, rfl, ⟨hn, rfl⟩ | ⟨hn, hshort, rfl⟩⟩⟩
    · exact .overread .tag hshort
    · exact .overread (.messageLength rfl) hshort
    · exact .invalidLength rfl hn
    · exact .overread (.body rfl hn) hshort
  | leave => cases h

/-- For each of the reasons an operation fails, and leaves the reader as it was. -/
theorem run_of_refused {unread : Bytes} {op : Step} {e : DecodeError} (h : Refused unread op e) :
    op.run unread = ⟨.error e, unread, none⟩ := by
  cases h with
  | overread asks short =>
    cases asks with
    | item fixed =>
      exact (of_eq_error_iff (.item _)).mpr
        ⟨(Item.Kind.refuses_of_width fixed _ _).mpr ⟨short, rfl⟩, rfl, rfl⟩
    | peek =>
      exact (of_eq_error_iff .peekUInt32).mpr
        ⟨(Read.refuses_peekUInt32 _ _).mpr ⟨short, rfl⟩, rfl, rfl⟩
    | skip =>
      exact (of_eq_error_iff (.skip _)).mpr ⟨(Read.refuses_skip _ _ _).mpr ⟨short, rfl⟩, rfl, rfl⟩
    | slice =>
      exact (of_eq_error_iff (.take _)).mpr ⟨(Read.refuses_take _ _ _).mpr ⟨short, rfl⟩, rfl, rfl⟩
    | blockLength block =>
      refine (of_eq_error_iff (.item _)).mpr ⟨?_, rfl, rfl⟩
      rcases block with rfl | rfl
      · exact (Read.refuses_block.map _ _ _).mpr (.inl ⟨short, rfl⟩)
      · exact (Read.refuses_text.map _ _ _).mpr (.inl (.inl ⟨short, rfl⟩))
    | blockBytes block starts =>
      refine (of_eq_error_iff (.item _)).mpr ⟨?_, rfl, rfl⟩
      rcases block with rfl | rfl
      · exact (Read.refuses_block.map _ _ _).mpr (.inr ⟨_, _, starts, short, rfl⟩)
      · exact (Read.refuses_text.map _ _ _).mpr (.inl (.inr ⟨_, _, starts, short, rfl⟩))
    | tag =>
      exact (of_eq_error_iff .message).mpr
        ⟨(Read.refuses_message _ _).mpr (.inl ⟨short, rfl⟩), rfl, rfl⟩
    | messageLength starts =>
      exact (of_eq_error_iff .message).mpr
        ⟨(Read.refuses_message _ _).mpr (.inr ⟨_, _, starts, .inl ⟨short, rfl⟩⟩), rfl, rfl⟩
    | body starts counted =>
      refine (of_eq_error_iff .message).mpr ⟨(Read.refuses_message _ _).mpr ?_, rfl, rfl⟩
      exact .inr ⟨_, _, starts, .inr ⟨_, _, rfl, .inr ⟨counted, short, rfl⟩⟩⟩
  | invalidUtf8 starts announced noText =>
    refine (of_eq_error_iff (.item .text)).mpr ⟨(Read.refuses_text.map _ _ _).mpr ?_, rfl, rfl⟩
    exact .inr ⟨_, _, starts, announced, noText, rfl⟩
  | invalidLength starts short =>
    refine (of_eq_error_iff .message).mpr ⟨(Read.refuses_message _ _).mpr ?_, rfl, rfl⟩
    exact .inr ⟨_, _, starts, .inr ⟨_, _, rfl, .inl ⟨short, rfl⟩⟩⟩
  | trailingBytes unfinished =>
    exact (of_eq_error_iff .finish).mpr
      ⟨(Read.refuses_finish _ _).mpr ⟨unfinished, rfl⟩, rfl, rfl⟩

/-- What an operation that succeeds has done. -/
theorem did_of_run {unread left : Bytes} {op : Step} {r : Reply} {o : Option Bytes}
    (h : op.run unread = ⟨.ok r, left, o⟩) : Did unread op r left o := by
  cases op with
  | item kind =>
    obtain ⟨i, hi, rfl, rfl⟩ := (of_eq_ok_iff (.item kind)).mp h
    obtain ⟨_, hstarts, rfl, rfl, hannounced⟩ := (Item.reads_kind kind _ _ _).mp hi
    exact .item hstarts hannounced
  | peekUInt32 =>
    obtain ⟨n, hn, rfl, rfl⟩ := (of_eq_ok_iff .peekUInt32).mp h
    obtain ⟨⟨rest, hstarts⟩, rfl⟩ := Read.peekUInt32_eq_ok_iff.mp hn
    exact .peek hstarts
  | skip length =>
    obtain ⟨⟨⟩, hskip, rfl, rfl⟩ := (of_eq_ok_iff (.skip length)).mp h
    obtain ⟨bytes, hstarts, rfl⟩ := (Read.reads_skip length _ _ _).mp hskip
    exact .skip hstarts
  | finish =>
    obtain ⟨⟨⟩, hfinish, rfl, rfl⟩ := (of_eq_ok_iff .finish).mp h
    obtain ⟨hfinished, rfl⟩ := Read.finish_eq_ok_iff.mp hfinish
    exact .finish hfinished
  | slice length =>
    obtain ⟨bytes, hbytes, rfl, rfl⟩ := (of_eq_ok_iff (.take length)).mp h
    obtain ⟨_, hstarts, rfl, rfl⟩ := (Read.reads_take length _ _ _).mp hbytes
    exact .slice hstarts
  | message inside =>
    obtain ⟨⟨tag, body⟩, hmessage, rfl, rfl⟩ := (of_eq_ok_iff .message).mp h
    obtain ⟨_, hstarts, rfl, hannounced⟩ := (Read.reads_message _ _ _).mp hmessage
    exact .message hstarts hannounced
  | leave =>
    cases h
    exact .leave

theorem run_of_did {unread left : Bytes} {op : Step} {r : Reply} {o : Option Bytes}
    (h : Did unread op r left o) : op.run unread = ⟨.ok r, left, o⟩ := by
  cases h with
  | item starts announced =>
    exact (of_eq_ok_iff (.item _)).mpr
      ⟨_, (Item.reads_kind _ _ _ _).mpr ⟨_, starts, rfl, rfl, announced⟩, rfl, rfl⟩
  | peek starts =>
    exact (of_eq_ok_iff .peekUInt32).mpr
      ⟨_, Read.peekUInt32_eq_ok_iff.mpr ⟨⟨_, starts⟩, rfl⟩, rfl, rfl⟩
  | skip starts =>
    exact (of_eq_ok_iff (.skip _)).mpr
      ⟨(), (Read.reads_skip _ _ _ _).mpr ⟨_, starts, rfl⟩, rfl, rfl⟩
  | finish finished =>
    exact (of_eq_ok_iff .finish).mpr ⟨(), Read.finish_eq_ok_iff.mpr ⟨finished, rfl⟩, rfl, rfl⟩
  | slice starts =>
    exact (of_eq_ok_iff (.take _)).mpr
      ⟨_, (Read.reads_take _ _ _ _).mpr ⟨_, starts, rfl, rfl⟩, rfl, rfl⟩
  | message starts announced =>
    exact (of_eq_ok_iff .message).mpr
      ⟨(_, _), (Read.reads_message _ _ _).mpr ⟨_, starts, rfl, announced⟩, rfl, rfl⟩
  | leave => rfl

/-- Only what was taken off the front is not unread any more. -/
theorem left_suffix (unread : Bytes) (op : Step) : (op.run unread).left <:+ unread := by
  rcases h : op.run unread with ⟨e | r, left, o⟩
  · obtain ⟨-, rfl, -⟩ := refused_of_run h
    exact List.suffix_rfl
  · cases did_of_run h with
    | item starts _ | skip starts | slice starts | message starts _ =>
      exact starts ▸ List.suffix_append _ _
    | peek _ | finish _ | leave => exact List.suffix_rfl

/-! ## Runs -/

/-- Carries out operations on a reader, one after the other, whether they fail or not. -/
def Step.runAll (unread : Bytes) : List Step → List (Except DecodeError Reply) × Bytes
  | [] => ([], unread)
  | op :: ops =>
    let done := op.run unread
    let rest := runAll done.left ops
    (done.reply :: rest.1, rest.2)

theorem runAll_suffix (unread : Bytes) (ops : List Step) :
    (Step.runAll unread ops).2 <:+ unread := by
  induction ops generalizing unread with
  | nil => exact List.suffix_rfl
  | cons op ops ih => exact (ih _).trans (left_suffix unread op)

/-- What is listed under a number. -/
def own {α : Type} (i : Nat) (entries : List (Nat × α)) : List α :=
  entries.filterMap fun entry => if entry.1 = i then some entry.2 else none

theorem own_cons_self {α : Type} (i : Nat) (a : α) (entries : List (Nat × α)) :
    own i ((i, a) :: entries) = a :: own i entries :=
  List.filterMap_cons_some (if_pos rfl)

theorem own_cons_of_ne {α : Type} {i j : Nat} (h : j ≠ i) (a : α) (entries : List (Nat × α)) :
    own i ((j, a) :: entries) = own i entries :=
  List.filterMap_cons_none (if_neg h)

end Cursor

/-- Several readers, by their unread bytes. -/
abbrev Readers := List Bytes

namespace Readers

open Cursor

/-- The readers after an operation on one of them. A reader that it opens comes last. -/
def update (readers : Readers) (i : Nat) (done : Outcome) : Readers :=
  readers.set i done.left ++ done.opened.toList

/-- Carries out operations, each on one of the readers. -/
def run (readers : Readers) : List (Nat × Step) → List (Nat × Except DecodeError Reply) × Readers
  | [] => ([], readers)
  | (i, op) :: ops =>
    match readers[i]? with
    | none => run readers ops
    | some unread =>
      let done := op.run unread
      let rest := run (readers.update i done) ops
      ((i, done.reply) :: rest.1, rest.2)

variable {readers : Readers} {i : Nat} {unread : Bytes}

theorem update_self (h : readers[i]? = some unread) (done : Outcome) :
    (readers.update i done)[i]? = some done.left := by
  obtain ⟨hlt, -⟩ := List.getElem?_eq_some_iff.mp h
  rw [update, List.getElem?_append_left (by rwa [List.length_set]), List.getElem?_set_self hlt]

/-- An operation on another reader changes nothing. -/
theorem update_other (h : readers[i]? = some unread) {j : Nat} (hne : j ≠ i) (done : Outcome) :
    (readers.update j done)[i]? = some unread := by
  obtain ⟨hlt, -⟩ := List.getElem?_eq_some_iff.mp h
  rw [update, List.getElem?_append_left (by rwa [List.length_set]), List.getElem?_set_ne hne, h]

theorem update_opened (readers : Readers) (i : Nat) {done : Outcome} {bytes : Bytes}
    (h : done.opened = some bytes) : (readers.update i done)[readers.length]? = some bytes := by
  rw [update, h, List.getElem?_append_right (Nat.le_of_eq List.length_set), List.length_set, Nat.sub_self]
  rfl

/-- A failed operation leaves all readers as they were. -/
theorem run_of_refused (h : readers[i]? = some unread) {op : Step} {e : DecodeError}
    (hrefused : Refused unread op e) (ops : List (Nat × Step)) :
    run readers ((i, op) :: ops) = ((i, .error e) :: (run readers ops).1, (run readers ops).2) := by
  have hupdate : readers.update i ⟨.error e, unread, none⟩ = readers := by
    obtain ⟨hlt, rfl⟩ := List.getElem?_eq_some_iff.mp h
    exact (List.append_nil _).trans (List.set_getElem_self hlt)
  rw [run, h]
  simp only [Cursor.run_of_refused hrefused, hupdate]

/-- In any run a reader gives and leaves what it does under its own operations alone. -/
theorem run_own {ops : List (Nat × Step)} (h : readers[i]? = some unread) :
    own i (run readers ops).1 = (Step.runAll unread (own i ops)).1 ∧
      (run readers ops).2[i]? = some (Step.runAll unread (own i ops)).2 := by
  induction ops generalizing readers unread with
  | nil => exact ⟨rfl, h⟩
  | cons entry ops ih =>
    obtain ⟨j, op⟩ := entry
    rw [run]
    cases hj : readers[j]? with
    | none =>
      have hne : j ≠ i := by
        rintro rfl
        cases hj.symm.trans h
      rw [own_cons_of_ne hne]
      exact ih h
    | some other =>
      by_cases hji : j = i
      · subst hji
        obtain rfl := Option.some.inj (hj.symm.trans h)
        obtain ⟨hreplies, hleft⟩ := ih (update_self h (op.run other))
        dsimp only
        rw [own_cons_self, own_cons_self, hreplies]
        exact ⟨rfl, hleft⟩
      · dsimp only
        rw [own_cons_of_ne hji, own_cons_of_ne hji]
        exact ih (update_other h hji _)

/-- A reader that is opened goes on in its own bytes alone. -/
theorem run_opened (h : readers[i]? = some unread) {op : Step} {bytes : Bytes}
    (hopened : (op.run unread).opened = some bytes) (ops : List (Nat × Step)) :
    own readers.length (run readers ((i, op) :: ops)).1 =
        (Step.runAll bytes (own readers.length ops)).1 ∧
      (run readers ((i, op) :: ops)).2[readers.length]? =
        some (Step.runAll bytes (own readers.length ops)).2 := by
  obtain ⟨hlt, -⟩ := List.getElem?_eq_some_iff.mp h
  rw [run, h]
  dsimp only
  rw [own_cons_of_ne (Nat.ne_of_lt hlt)]
  exact run_own (update_opened readers i hopened)

/-- Operations on readers are atomic. One that fails does so for the reason given, and leaves the
unread bytes as they were; one that succeeds takes exactly its bytes off the front. So what is unread
after any run is an end piece of what was unread before, and in a run over several readers each of
them gives and leaves what it does under its own operations alone. That holds of a reader that is
opened inside another one as well, of the bytes that it is opened over. -/
theorem run_atomic :
    (∀ (unread : Bytes) (op : Step),
      (∀ e left opened, op.run unread = ⟨.error e, left, opened⟩ ↔
        Refused unread op e ∧ left = unread ∧ opened = none) ∧
      ∀ reply left opened, op.run unread = ⟨.ok reply, left, opened⟩ ↔
        Did unread op reply left opened) ∧
    (∀ (unread : Bytes) (ops : List Step), (Step.runAll unread ops).2 <:+ unread) ∧
    ∀ (readers : Readers) (i : Nat) (unread : Bytes), readers[i]? = some unread →
      (∀ ops, own i (run readers ops).1 = (Step.runAll unread (own i ops)).1 ∧
        (run readers ops).2[i]? = some (Step.runAll unread (own i ops)).2) ∧
      (∀ op e ops, Refused unread op e → run readers ((i, op) :: ops) =
        ((i, .error e) :: (run readers ops).1, (run readers ops).2)) ∧
      ∀ op bytes ops, (op.run unread).opened = some bytes →
        own readers.length (run readers ((i, op) :: ops)).1 =
            (Step.runAll bytes (own readers.length ops)).1 ∧
          (run readers ((i, op) :: ops)).2[readers.length]? =
            some (Step.runAll bytes (own readers.length ops)).2 := by
  refine ⟨fun unread op => ⟨fun e left opened => ⟨refused_of_run, ?_⟩, fun reply left opened =>
    ⟨did_of_run, run_of_did⟩⟩, runAll_suffix, fun readers i unread h => ⟨fun ops => run_own h,
      fun op e ops hrefused => run_of_refused h hrefused ops, fun op bytes ops hopened =>
        run_opened h hopened ops⟩⟩
  rintro ⟨hrefused, rfl, rfl⟩
  exact Cursor.run_of_refused hrefused

/-- Neither reader sees the bytes of the other. -/
example :
    run [[0, 0, 0, 1, 0, 0, 0, 2]]
        [(0, .slice 4), (1, .item .uint32), (1, .item .uint8), (0, .item .uint32)] =
      ([(0, .ok .nothing), (1, .ok (.item (.uint32 1))), (1, .error (.overread 1 0)),
        (0, .ok (.item (.uint32 2)))], [[], []]) :=
  rfl

end Readers

end TypedWire
