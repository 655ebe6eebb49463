import Mathlib.Logic.ExistsUnique
import TypedWire.Proofs.Wire.Segments

/-!
# Regions over any run

A writer keeps its open regions as positions in a buffer that grows and is overwritten. Whatever
operations it gets, those positions stay positions of four bytes in the buffer, the regions are those
that the operations opened and did not close, and once none is open the bytes are those of the tree
that the operations spell.

- `Writer.unclosed`: the regions that operations leave open, told from the operations alone.
- `Writer.accepted`: the operations of a run that did not fail.
- `Nesting`: a tree under construction, the content of the innermost open region first.
- `Nesting.perform_writer`: an operation on the writer of a nesting gives the writer of the next.
- `Writer.Follows`, `Writer.run_follows`: what holds after any run below the limit of a length.
-/

namespace TypedWire

/-! ## What a run leaves open -/

/-- What the length of a region counts. -/
inductive Region.Kind where
  | bytes
  | message
  deriving DecidableEq

def Region.kind : Region → Region.Kind
  | .bytes _ => .bytes
  | .message _ => .message

/-- The position of the four bytes that wait for the length. -/
def Region.start : Region → Nat
  | .bytes start => start
  | .message start => start

/-- The operation that closes a region of the kind. -/
def Region.Kind.closing : Region.Kind → Writer.Step
  | .bytes => .endBytes
  | .message => .endMessage

def Frame.kind : Frame → Region.Kind
  | .bytes => .bytes
  | .message _ => .message

theorem Frame.closing_kind (f : Frame) : f.kind.closing = f.closing := by
  cases f <;> rfl

namespace Writer

/-- The regions open after one more operation, the innermost first: a closing takes the innermost
one away if it is of its kind. -/
def Step.track (unclosed : List Region.Kind) : Step → List Region.Kind
  | .item _ => unclosed
  | .beginBytes => .bytes :: unclosed
  | .endBytes => if unclosed.head? = some .bytes then unclosed.tail else unclosed
  | .beginMessage _ => .message :: unclosed
  | .endMessage => if unclosed.head? = some .message then unclosed.tail else unclosed

/-- The regions that operations open and do not close, the innermost first. -/
def unclosed (ops : List Step) : List Region.Kind := ops.foldl Step.track []

/-- The operations of a run that do not fail. -/
def accepted (w : Writer) : List Step → List Step
  | [] => []
  | op :: ops =>
    match w.perform op with
    | (.ok (), w') => op :: w'.accepted ops
    | (.error _, w') => w'.accepted ops

theorem track_closing (kind : Region.Kind) (unclosed : List Region.Kind) :
    kind.closing.track unclosed =
      if unclosed.head? = some kind then unclosed.tail else unclosed := by
  cases kind <;> rfl

/-! ## One operation -/

theorem perform_of_ok {w w' : Writer} {op : Step} (h : w.step op = .ok w') :
    w.perform op = (.ok (), w') := by
  rw [perform, h]

theorem perform_of_error {w : Writer} {op : Step} {e : EncodeError} (h : w.step op = .error e) :
    w.perform op = (.error e, w.afterFailure op e) := by
  rw [perform, h]

/-- A closing is refused unless the innermost region is of its kind. -/
theorem step_closing_of_ne {w : Writer} {kind : Region.Kind}
    (h : (w.pending.map Region.kind).head? ≠ some kind) :
    w.step kind.closing = .error .unbalancedRegion := by
  obtain ⟨buffer, pending⟩ := w
  cases pending with
  | nil => cases kind <;> rfl
  | cons r pending =>
    cases kind with
    | bytes =>
      cases r with
      | bytes start => exact (h rfl).elim
      | message start => rfl
    | message =>
      cases r with
      | bytes start => rfl
      | message start => exact (h rfl).elim

/-- What a closing does that is not refused. -/
theorem step_closing_eq_ok {w w' : Writer} {kind : Region.Kind} (h : w.step kind.closing = .ok w') :
    ∃ r pending length, w.pending = r :: pending ∧ r.kind = kind ∧
      patch r.start length ⟨w.buffer, pending⟩ = .ok w' := by
  by_cases hkind : (w.pending.map Region.kind).head? = some kind
  · obtain ⟨buffer, pending⟩ := w
    cases pending with
    | nil => cases hkind
    | cons r pending =>
      obtain rfl : r.kind = kind := Option.some.inj hkind
      cases r with
      | bytes start => exact ⟨.bytes start, pending, _, rfl, rfl, h⟩
      | message start => exact ⟨.message start, pending, _, rfl, rfl, h⟩
  · cases (step_closing_of_ne hkind).symm.trans h

theorem patch_eq_ok {start length : Nat} {w w' : Writer} (h : w.patch start length = .ok w') :
    ∃ n : UInt32, w' = ⟨w.buffer.take start ++ BigEndian.encode 4 n.toNat ++
      w.buffer.drop (start + 4), w.pending⟩ := by
  obtain ⟨n, -, h⟩ := outcome_bind_eq_ok.mp h
  exact ⟨n, (Except.ok.inj h).symm⟩

theorem length_le_patch {start length : Nat} {w w' : Writer} (h : w.patch start length = .ok w') :
    w.buffer.length ≤ w'.buffer.length := by
  obtain ⟨n, rfl⟩ := patch_eq_ok h
  simp only [List.length_append, List.length_take, List.length_drop, BigEndian.length_encode]
  omega

/-- Overwriting four bytes of the buffer changes nothing else. -/
theorem patch_spec {start length : Nat} {w w' : Writer} (h : w.patch start length = .ok w')
    (hle : start + 4 ≤ w.buffer.length) : w'.pending = w.pending ∧
      w'.buffer.length = w.buffer.length ∧
      ∀ i, i < start ∨ start + 4 ≤ i → w'.buffer[i]? = w.buffer[i]? := by
  obtain ⟨n, rfl⟩ := patch_eq_ok h
  have hfront : (w.buffer.take start ++ BigEndian.encode 4 n.toNat).length = start + 4 := by
    rw [List.length_append, List.length_take, BigEndian.length_encode]
    omega
  refine ⟨rfl, ?_, fun i hi => ?_⟩
  · rw [List.length_append, hfront, List.length_drop]
    omega
  · rcases hi with hlt | hge
    · rw [List.append_assoc, List.getElem?_append_left (by rw [List.length_take]; omega),
        List.getElem?_take_of_lt hlt]
    · rw [List.getElem?_append_right (by rw [hfront]; exact hge), hfront, List.getElem?_drop,
        Nat.add_sub_cancel' hge]

/-- A closing that succeeds takes the innermost region away and writes nothing but the four bytes of
it, if those are in the buffer. -/
theorem step_closing_spec {w w' : Writer} {kind : Region.Kind} (h : w.step kind.closing = .ok w')
    (hroom : ∀ r ∈ w.pending, r.start + 4 ≤ w.buffer.length) :
    ∃ r, w.pending = r :: w'.pending ∧ w'.buffer.length = w.buffer.length ∧
      ∀ i, i < r.start ∨ r.start + 4 ≤ i → w'.buffer[i]? = w.buffer[i]? := by
  obtain ⟨r, pending, length, hpending, -, hpatch⟩ := step_closing_eq_ok h
  have hr : r.start + 4 ≤ w.buffer.length := hroom r (hpending ▸ List.mem_cons_self)
  obtain ⟨hrest, hlen, hsame⟩ := patch_spec hpatch hr
  exact ⟨r, hpending.trans (congrArg (r :: ·) hrest.symm), hlen, hsame⟩

theorem exists_intoBytes_iff (w : Writer) :
    (∃ bytes, w.intoBytes = .ok bytes) ↔ w.pending = [] := by
  rw [Writer.intoBytes]
  cases w.pending with
  | nil => exact ⟨fun _ => rfl, fun _ => ⟨_, rfl⟩⟩
  | cons r pending => exact ⟨nofun, nofun⟩

/-! ## The buffer only grows -/

theorem length_le_raw (bytes : Bytes) (w : Writer) :
    w.buffer.length ≤ (w.raw bytes).buffer.length := by
  show w.buffer.length ≤ (w.buffer ++ bytes).length
  rw [List.length_append]
  omega

theorem length_le_step {w w' : Writer} {op : Step} (h : w.step op = .ok w') :
    w.buffer.length ≤ w'.buffer.length := by
  have hclose : ∀ kind : Region.Kind, w.step kind.closing = .ok w' →
      w.buffer.length ≤ w'.buffer.length := by
    intro kind h
    obtain ⟨r, pending, length, -, -, hpatch⟩ := step_closing_eq_ok h
    have hlen := length_le_patch hpatch
    exact hlen
  cases op with
  | item i =>
    rcases i.write_cases w with hok | ⟨-, n, herr⟩
    · obtain rfl := Except.ok.inj (hok.symm.trans h)
      exact length_le_raw i.spell w
    · cases herr.symm.trans h
  | beginBytes =>
    obtain rfl := Except.ok.inj h
    exact length_le_raw _ w
  | beginMessage tag =>
    obtain rfl := Except.ok.inj h
    exact Nat.le_trans (length_le_raw _ w) (length_le_raw _ (w.uint8 tag))
  | endBytes => exact hclose .bytes h
  | endMessage => exact hclose .message h

theorem buffer_afterFailure (w : Writer) (op : Step) (e : EncodeError) :
    (w.afterFailure op e).buffer = w.buffer := by
  unfold afterFailure
  split <;> rfl

theorem length_le_perform (w : Writer) (op : Step) :
    w.buffer.length ≤ (w.perform op).2.buffer.length := by
  cases h : w.step op with
  | ok w' =>
    rw [perform_of_ok h]
    exact length_le_step h
  | error e =>
    have hbuffer := w.buffer_afterFailure op e
    rw [perform_of_error h]
    exact Nat.le_of_eq (congrArg List.length hbuffer).symm

theorem length_le_run (ops : List Step) (w : Writer) :
    w.buffer.length ≤ (w.run ops).buffer.length := by
  induction ops generalizing w with
  | nil => exact Nat.le_refl _
  | cons op ops ih => exact Nat.le_trans (length_le_perform w op) (ih (w.perform op).2)

end Writer

/-! ## Trees under construction -/

/-- What has been written so far: the content of the innermost open region, and for each open region,
the innermost first, its frame and what was written before it. -/
structure Nesting where
  here : List Segment
  outer : List (Frame × List Segment)

namespace Nesting

/-- Nothing written and nothing open. -/
def start : Nesting := ⟨[], []⟩

/-- A region is opened. -/
def enter (n : Nesting) (f : Frame) : Nesting := ⟨[], (f, n.here) :: n.outer⟩

/-- The innermost region is closed if it is of the kind. -/
def leave (n : Nesting) (kind : Region.Kind) : Nesting :=
  match n.outer with
  | (f, before) :: outer =>
    if f.kind = kind then ⟨before ++ [.region f n.here], outer⟩ else n
  | [] => n

/-- One more operation. -/
def next (n : Nesting) : Writer.Step → Nesting
  | .item i => { n with here := n.here ++ [.item i] }
  | .beginBytes => n.enter .bytes
  | .endBytes => n.leave .bytes
  | .beginMessage tag => n.enter (.message tag)
  | .endMessage => n.leave .message

/-- The kinds of the open regions, the innermost first. -/
def kinds (n : Nesting) : List Region.Kind := n.outer.map fun (f, _) => f.kind

theorem leave_self (f : Frame) (here before : List Segment) (outer : List (Frame × List Segment)) :
    leave ⟨here, (f, before) :: outer⟩ f.kind = ⟨before ++ [.region f here], outer⟩ :=
  if_pos rfl

theorem leave_of_ne {n : Nesting} {kind : Region.Kind} (h : n.kinds.head? ≠ some kind) :
    n.leave kind = n := by
  obtain ⟨here, outer⟩ := n
  cases outer with
  | nil => rfl
  | cons entry outer => exact if_neg fun hkind => h (congrArg some hkind)

theorem exists_of_head {n : Nesting} {kind : Region.Kind} (h : n.kinds.head? = some kind) :
    ∃ f here before outer, n = ⟨here, (f, before) :: outer⟩ ∧ f.kind = kind := by
  obtain ⟨here, outer⟩ := n
  cases outer with
  | nil => cases h
  | cons entry outer => exact ⟨entry.1, here, entry.2, outer, rfl, Option.some.inj h⟩

theorem kinds_leave (n : Nesting) (kind : Region.Kind) :
    (n.leave kind).kinds = kind.closing.track n.kinds := by
  rw [Writer.track_closing]
  by_cases hhead : n.kinds.head? = some kind
  · rw [if_pos hhead]
    obtain ⟨f, here, before, outer, rfl, rfl⟩ := exists_of_head hhead
    rw [leave_self]
    rfl
  · rw [if_neg hhead, leave_of_ne hhead]

/-- What is open is told by the operations alone. -/
theorem kinds_next (n : Nesting) (op : Writer.Step) : (n.next op).kinds = op.track n.kinds := by
  cases op with
  | endBytes => exact n.kinds_leave .bytes
  | endMessage => exact n.kinds_leave .message
  | _ => rfl

theorem next_opening (n : Nesting) (f : Frame) : n.next f.opening = n.enter f := by
  cases f <;> rfl

theorem next_closing (n : Nesting) (kind : Region.Kind) : n.next kind.closing = n.leave kind := by
  cases kind <;> rfl

mutual

theorem foldl_steps : ∀ (s : Segment) (n : Nesting),
    s.steps.foldl next n = { n with here := n.here ++ [s] }
  | .item i, n => rfl
  | .region f content, n => by
    rw [Segment.steps, List.cons_append, List.foldl_cons, next_opening, List.foldl_append,
      foldl_stepsAll content (n.enter f), List.foldl_cons, List.foldl_nil, ← f.closing_kind,
      next_closing]
    exact leave_self f content n.here n.outer

theorem foldl_stepsAll : ∀ (segments : List Segment) (n : Nesting),
    (Segment.stepsAll segments).foldl next n = { n with here := n.here ++ segments }
  | [], n => by
    show n = { n with here := n.here ++ [] }
    rw [List.append_nil]
  | s :: segments, n => by
    rw [Segment.stepsAll, List.foldl_append, foldl_steps s n, foldl_stepsAll segments _,
      List.append_assoc, List.singleton_append]

end

end Nesting

/-- The operations tell the segments that they write. -/
theorem Segment.stepsAll_injective : Function.Injective Segment.stepsAll := by
  intro segments others h
  have hfold := Nesting.foldl_stepsAll segments .start
  rw [h, Nesting.foldl_stepsAll others .start] at hfold
  exact (congrArg Nesting.here hfold).symm

/-! ## The writer of a nesting -/

/-- Opening a region adds its position at the end, and the four bytes for its length behind it. -/
theorem Frame.openOn_spec (f : Frame) (w : Writer) :
    ∃ r, (f.openOn w).pending = r :: w.pending ∧ r.kind = f.kind ∧
      w.buffer.length ≤ r.start ∧ r.start + 4 = (f.openOn w).buffer.length := by
  have hspec : ∀ w : Writer, (w.buffer ++ BigEndian.encode 4 0).length = w.buffer.length + 4 :=
    fun w => by rw [List.length_append, BigEndian.length_encode]
  cases f with
  | bytes => exact ⟨.bytes w.buffer.length, rfl, rfl, Nat.le_refl _, (hspec w).symm⟩
  | message tag =>
    exact ⟨.message (w.uint8 tag).buffer.length, rfl, rfl, Writer.length_le_raw _ w,
      (hspec (w.uint8 tag)).symm⟩

/-- An open region takes as many bytes as it will when it is closed. -/
theorem Frame.length_openOn (f : Frame) (content : Bytes) (w : Writer) :
    ((f.openOn w).raw content).buffer.length = w.buffer.length + (f.spell content).length := by
  cases f with
  | bytes =>
    show ((w.uint32 0).raw content).buffer.length = _
    rw [Writer.length_placeholder, spell, Read.length_spellBlock]
    omega
  | message tag =>
    show (((w.uint8 tag).uint32 0).raw content).buffer.length = _
    rw [Writer.length_placeholder, Writer.uint8_eq_raw, spell, Read.length_spellMessage,
      Read.messageHeader]
    show (w.buffer ++ [tag]).length + 4 + content.length = _
    rw [List.length_append, List.length_singleton]
    omega

namespace Nesting

/-- The operations that open the regions of a nesting and write what stands before them. -/
def stepsBefore : List (Frame × List Segment) → List Writer.Step
  | [] => []
  | (f, before) :: outer => stepsBefore outer ++ Segment.stepsAll before ++ [f.opening]

/-- The operations that have been carried out. -/
def steps (n : Nesting) : List Writer.Step := stepsBefore n.outer ++ Segment.stepsAll n.here

/-- The writer that has carried out the operations that open the regions. -/
def writerBefore : List (Frame × List Segment) → Writer
  | [] => .empty
  | (f, before) :: outer => f.openOn ((writerBefore outer).raw (Segment.spellAll before))

/-- The writer that has carried them out. -/
def writer (n : Nesting) : Writer := (writerBefore n.outer).raw (Segment.spellAll n.here)

theorem pending_writerBefore (outer : List (Frame × List Segment)) :
    (writerBefore outer).pending.map Region.kind = outer.map fun (f, _) => f.kind := by
  induction outer with
  | nil => rfl
  | cons entry outer ih =>
    obtain ⟨f, before⟩ := entry
    obtain ⟨r, hpending, hkind, -, -⟩ :=
      f.openOn_spec ((writerBefore outer).raw (Segment.spellAll before))
    rw [writerBefore, hpending, List.map_cons, List.map_cons, hkind]
    exact congrArg (f.kind :: ·) ih

theorem pending_writer (n : Nesting) : n.writer.pending.map Region.kind = n.kinds :=
  pending_writerBefore n.outer

/-- The four bytes of every open region are in the buffer. -/
theorem placeholder_writerBefore (outer : List (Frame × List Segment)) :
    ∀ r ∈ (writerBefore outer).pending, r.start + 4 ≤ (writerBefore outer).buffer.length := by
  induction outer with
  | nil => exact List.forall_mem_nil _
  | cons entry outer ih =>
    obtain ⟨f, before⟩ := entry
    obtain ⟨r, hpending, -, hgrow, hstart⟩ :=
      f.openOn_spec ((writerBefore outer).raw (Segment.spellAll before))
    have hraw := Writer.length_le_raw (Segment.spellAll before) (writerBefore outer)
    rw [writerBefore, hpending]
    refine List.forall_mem_cons.mpr ⟨Nat.le_of_eq hstart, fun r' hr' => ?_⟩
    have hr' := ih r' hr'
    omega

theorem placeholder_writer (n : Nesting) :
    ∀ r ∈ n.writer.pending, r.start + 4 ≤ n.writer.buffer.length := by
  intro r hr
  have hbefore := placeholder_writerBefore n.outer r hr
  exact Nat.le_trans hbefore (Writer.length_le_raw _ _)

/-! ## A run builds a nesting -/

/-- An item is appended to the innermost region, or it is too long and changes nothing. -/
theorem perform_item (n : Nesting) (i : Item) :
    n.writer.perform (.item i) = (.ok (), (n.next (.item i)).writer) ∨
      ∃ e, n.writer.perform (.item i) = (.error e, n.writer) := by
  rcases i.write_cases n.writer with hok | ⟨-, length, herr⟩
  · left
    have hstep : n.writer.step (.item i) = .ok (n.writer.raw i.spell) := hok
    rw [Writer.perform_of_ok hstep]
    show (_, n.writer.raw i.spell) =
      (_, (writerBefore n.outer).raw (Segment.spellAll (n.here ++ [.item i])))
    rw [Segment.spellAll_append, Segment.spellAll_singleton, writer, Writer.raw_raw]
    rfl
  · right
    have hstep : n.writer.step (.item i) = .error (.tooLong length) := herr
    exact ⟨_, Writer.perform_of_error hstep⟩

theorem perform_opening (n : Nesting) (f : Frame) :
    n.writer.perform f.opening = (.ok (), (n.enter f).writer) := by
  rw [Writer.perform_of_ok (f.step_opening _)]
  show (_, f.openOn n.writer) = (_, (f.openOn n.writer).raw [])
  rw [Writer.raw_nil]

/-- The innermost region is closed by an operation of its kind. -/
theorem step_closing {n : Nesting} {kind : Region.Kind} (hkind : n.kinds.head? = some kind)
    (h : n.writer.buffer.length < UInt32.size) :
    n.writer.step kind.closing = .ok (n.leave kind).writer := by
  obtain ⟨f, here, before, outer, rfl, rfl⟩ := exists_of_head hkind
  have hbuffer : ((f.openOn ((writerBefore outer).raw (Segment.spellAll before))).raw
      (Segment.spellAll here)).buffer.length < UInt32.size := h
  rw [f.length_openOn] at hbuffer
  have hfits : (f.spell (Segment.spellAll here)).length ≤ UInt32.size := by omega
  rw [leave_self, f.closing_kind]
  refine (Frame.step_closing hfits _).trans (congrArg Except.ok ?_)
  show _ = (writerBefore outer).raw (Segment.spellAll (before ++ [.region f here]))
  rw [Segment.spellAll_append, Segment.spellAll_singleton, Writer.raw_raw]
  rfl

theorem steps_leave {n : Nesting} {kind : Region.Kind} (hkind : n.kinds.head? = some kind) :
    (n.leave kind).steps = n.steps ++ [kind.closing] := by
  obtain ⟨f, here, before, outer, rfl, rfl⟩ := exists_of_head hkind
  rw [leave_self, f.closing_kind, steps, steps, stepsBefore, Segment.stepsAll_append,
    Segment.stepsAll_singleton, Segment.steps]
  simp only [List.append_assoc, List.cons_append, List.nil_append]

/-- Below the limit of a length, an operation makes the writer of the next nesting, or it fails and
changes nothing. -/
theorem perform_writer (n : Nesting) (op : Writer.Step)
    (h : n.writer.buffer.length < UInt32.size) :
    (n.writer.perform op = (.ok (), (n.next op).writer) ∧ (n.next op).steps = n.steps ++ [op]) ∨
      (∃ e, n.writer.perform op = (.error e, n.writer)) ∧ op.track n.kinds = n.kinds := by
  have hopening : ∀ f : Frame, n.writer.perform f.opening = (.ok (), (n.enter f).writer) ∧
      (n.enter f).steps = n.steps ++ [f.opening] := fun f =>
    ⟨n.perform_opening f, List.append_nil _⟩
  have hclosing : ∀ kind : Region.Kind,
      (n.writer.perform kind.closing = (.ok (), (n.leave kind).writer) ∧
        (n.leave kind).steps = n.steps ++ [kind.closing]) ∨
      (∃ e, n.writer.perform kind.closing = (.error e, n.writer)) ∧
        kind.closing.track n.kinds = n.kinds := by
    intro kind
    by_cases hkind : n.kinds.head? = some kind
    · exact .inl ⟨Writer.perform_of_ok (step_closing hkind h), steps_leave hkind⟩
    · refine .inr ⟨⟨.unbalancedRegion, ?_⟩, ?_⟩
      · have hhead := n.pending_writer ▸ hkind
        rw [Writer.perform_of_error (Writer.step_closing_of_ne hhead)]
        cases kind <;> rfl
      · rw [Writer.track_closing, if_neg hkind]
  cases op with
  | item i =>
    rcases n.perform_item i with hok | herr
    · refine .inl ⟨hok, ?_⟩
      show stepsBefore n.outer ++ Segment.stepsAll (n.here ++ [.item i]) = n.steps ++ [.item i]
      rw [Segment.stepsAll_append, Segment.stepsAll_singleton, steps, List.append_assoc]
      rfl
    · exact .inr ⟨herr, rfl⟩
  | beginBytes => exact .inl (hopening .bytes)
  | beginMessage tag => exact .inl (hopening (.message tag))
  | endBytes => exact hclosing .bytes
  | endMessage => exact hclosing .message

theorem perform_eq_error {n : Nesting} {op : Writer.Step} {e : EncodeError} {w' : Writer}
    (h : n.writer.buffer.length < UInt32.size) (hfail : n.writer.perform op = (.error e, w')) :
    w' = n.writer := by
  rcases n.perform_writer op h with ⟨hok, -⟩ | ⟨⟨e', herr⟩, -⟩
  · cases hok.symm.trans hfail
  · exact (congrArg Prod.snd (herr.symm.trans hfail)).symm

/-- Exactly the innermost region can be closed. -/
theorem exists_step_closing_iff {n : Nesting} (h : n.writer.buffer.length < UInt32.size)
    (kind : Region.Kind) :
    (∃ w', n.writer.step kind.closing = .ok w') ↔ n.kinds.head? = some kind := by
  constructor
  · rintro ⟨w', hstep⟩
    obtain ⟨r, pending, _, hr, rfl, -⟩ := Writer.step_closing_eq_ok hstep
    rw [← n.pending_writer, hr]
    rfl
  · intro hkind
    exact ⟨_, step_closing hkind h⟩

/-- With no region open, all that was written is at the outermost level. -/
theorem of_kinds_eq_nil {n : Nesting} (h : n.kinds = []) :
    n.writer = Writer.empty.raw (Segment.spellAll n.here) ∧ n.steps = Segment.stepsAll n.here := by
  obtain ⟨here, outer⟩ := n
  obtain rfl : outer = [] := List.map_eq_nil_iff.mp h
  exact ⟨rfl, rfl⟩

/-- A run from the writer of a nesting ends in the writer of a nesting, into which the accepted
operations have gone. -/
theorem run_writer (ops : List Writer.Step) (n : Nesting)
    (h : (n.writer.run ops).buffer.length < UInt32.size) :
    ∃ n' : Nesting, n.writer.run ops = n'.writer ∧ n'.steps = n.steps ++ n.writer.accepted ops ∧
      n'.kinds = ops.foldl Writer.Step.track n.kinds := by
  induction ops generalizing n with
  | nil => exact ⟨n, rfl, (List.append_nil _).symm, rfl⟩
  | cons op ops ih =>
    have hrun : n.writer.run (op :: ops) = (n.writer.perform op).2.run ops := rfl
    have hbuffer := Nat.lt_of_le_of_lt (Writer.length_le_run (op :: ops) n.writer) h
    rcases n.perform_writer op hbuffer with ⟨hok, hsteps⟩ | ⟨⟨e, herr⟩, htrack⟩
    · rw [hrun, hok] at h ⊢
      obtain ⟨n', hwriter, hsteps', hkinds⟩ := ih (n.next op) h
      refine ⟨n', hwriter, ?_, ?_⟩
      · rw [hsteps', hsteps, Writer.accepted, hok, List.append_assoc]
        rfl
      · rw [hkinds, kinds_next]
        rfl
    · rw [hrun, herr] at h ⊢
      obtain ⟨n', hwriter, hsteps', hkinds⟩ := ih n h
      refine ⟨n', hwriter, ?_, ?_⟩
      · rw [hsteps', Writer.accepted, herr]
      · rw [hkinds, List.foldl_cons, htrack]

end Nesting

namespace Writer

/-- The writer is what operations on an empty one come to. -/
structure Follows (ops : List Step) (w : Writer) : Prop where
  /-- The open regions are those that the operations open and do not close. -/
  pending : w.pending.map Region.kind = unclosed ops
  /-- An item is appended unless its length does not fit four bytes. -/
  item : ∀ i : Item, i.spell.length < UInt32.size → w.step (.item i) = .ok (w.raw i.spell)
  /-- A region is closed if it is the innermost one and of the kind, and only then. -/
  closing : ∀ kind : Region.Kind,
    (∃ w', w.step kind.closing = .ok w') ↔ (unclosed ops).head? = some kind
  /-- An operation that fails changes nothing. -/
  failure : ∀ op e w', w.perform op = (.error e, w') → w' = w
  /-- The four bytes that wait for the length of a region are in the buffer. -/
  placeholder : ∀ r ∈ w.pending, r.start + 4 ≤ w.buffer.length
  /-- Closing a region writes nothing but these four bytes of it. -/
  patch : ∀ (kind : Region.Kind) (w' : Writer), w.step kind.closing = .ok w' →
    ∃ r, w.pending = r :: w'.pending ∧ w'.buffer.length = w.buffer.length ∧
      ∀ i, i < r.start ∨ r.start + 4 ≤ i → w'.buffer[i]? = w.buffer[i]?
  /-- The bytes are given out if no region is open, and only then. -/
  intoBytes : (∃ bytes, w.intoBytes = .ok bytes) ↔ unclosed ops = []
  /-- Then the accepted operations are those of one row of segments. -/
  nested : unclosed ops = [] →
    ∃! segments, Segment.stepsAll segments = Writer.empty.accepted ops
  /-- The bytes are the bytes of these segments. -/
  serialized : unclosed ops = [] → ∀ segments,
    Segment.stepsAll segments = Writer.empty.accepted ops →
      w.intoBytes = .ok (Segment.spellAll segments)

/-- What holds of the writer after any run on an empty one that stays below the limit of a length:
the buffer only grows, so its length at the end bounds every length that was written. -/
theorem run_follows (ops : List Step) (h : (Writer.empty.run ops).buffer.length < UInt32.size) :
    Follows ops (Writer.empty.run ops) := by
  obtain ⟨n, hwriter, hsteps, hkinds⟩ := Nesting.start.run_writer ops h
  have hstart : Nesting.start.writer = .empty := rfl
  rw [hstart] at hwriter hsteps
  have hunclosed : unclosed ops = n.kinds := hkinds.symm
  have haccepted : Writer.empty.accepted ops = n.steps := hsteps.symm
  rw [hwriter] at h ⊢
  refine ⟨?pending, fun i hi => Item.write_of_lt hi n.writer, ?closing, ?failure,
    n.placeholder_writer, ?patch, ?intoBytes, ?nested, ?serialized⟩
  case pending => rw [hunclosed, n.pending_writer]
  case closing =>
    rw [hunclosed]
    exact Nesting.exists_step_closing_iff h
  case failure =>
    intro op e w' hfail
    exact Nesting.perform_eq_error h hfail
  case patch =>
    intro kind w' hstep
    exact step_closing_spec hstep n.placeholder_writer
  case intoBytes => rw [exists_intoBytes_iff, hunclosed, ← n.pending_writer, List.map_eq_nil_iff]
  case nested =>
    intro hnil
    obtain ⟨-, hhere⟩ := Nesting.of_kinds_eq_nil (hunclosed ▸ hnil)
    rw [haccepted, hhere]
    exact ⟨n.here, rfl, fun others hothers => Segment.stepsAll_injective hothers⟩
  case serialized =>
    intro hnil segments hsegments
    obtain ⟨hhere, hsteps⟩ := Nesting.of_kinds_eq_nil (hunclosed ▸ hnil)
    rw [haccepted, hsteps] at hsegments
    obtain rfl := Segment.stepsAll_injective hsegments
    rw [hhere]
    rfl

/-- A message with a block in it; closing the message too early fails. -/
theorem run_follows_message :
    let ops : List Step := [.beginMessage 68, .beginBytes, .item (.int64 7), .endMessage, .endBytes,
      .endMessage]
    (Writer.empty.run ops).buffer = [68, 0, 0, 0, 16, 0, 0, 0, 8, 0, 0, 0, 0, 0, 0, 0, 7] ∧
      (Writer.empty.run ops).buffer.length < UInt32.size ∧ Follows ops (Writer.empty.run ops) := by
  dsimp only
  exact ⟨by decide, by decide, run_follows _ (by decide)⟩

end Writer

end TypedWire
