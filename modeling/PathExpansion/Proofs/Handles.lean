import PathExpansion.Collect
import PathExpansion.Proofs.Agenda.Moves
import PathExpansion.Proofs.PathQueue

/-!
# Directory handles

An open listing holds a handle that has to be given back.  A scan that is interrupted in the middle
of its work holds as many as it has listings open, and they wait with the frames that read from
them.  Frames are copied, saved and resumed, and a step may be stopped by an error anywhere; even so
each handle stays with one frame until it is given back.  Where names are put in order, a listing
has its handle only while it is read, and a listing that breaks off or cannot be put in order gives
it back too.

* `Scan.held`, `Scan.Accounted` — the cursors of all frames, and the invariant.
* `Scan.handles_sortCursor`, `Scan.handles_of_openCursor` — what putting names in order does to the
  handles, and what opening a directory does, however it ends.
* **`Scan.Accounted.turn`** — a step preserves it, for any filesystem, finite or not, and for any
  fault.
* `Scan.InOrder` — with coherence, which says that a frame which is dropped has no cursor;
  `Scan.InOrder.advance`, `Scan.InOrder.drain`: any number of steps preserve both.
* `Request`, `Expansion.afterRequests`, `Stream.afterNexts` — everything that can be asked for.
* **`Expansion.handles_accounted`** — no handle is lost and none is held twice.
-/

namespace PathExpansion

namespace Scan

/-- **The cursors that the frames of a scan hold**, each by its handle; a sorted listing has
none. -/
def held (s : Scan) : List (Option ℕ) :=
  (s.frame :: s.stack).filterMap fun f => f.cursor.map (·.handle)

/-- **A scan that accounts for its handles**: those that were given and not given back are the ones
of its cursors, each of one cursor, or there are none if names are put in order.  No handle has been
given twice.  The scan was started, and so can be started over. -/
structure Accounted (plan : Plan) (s : Scan) : Prop where
  lazy : plan.sorting.isEager = false → s.held.Perm (s.handles.map some)
  eager : plan.sorting.isEager = true → s.handles = []
  nodup : s.handles.Nodup
  issued : ∀ h ∈ s.handles, h < s.issued
  started : s.base.isSome

variable {r : Reader} {plan : Plan} {s s' : Scan}

/-! ## Frames that come and go -/

/-- Where cursors and handles stay the same, there is nothing new to account for. -/
lemma Accounted.congr (h : s.Accounted plan) (hheld : s'.held = s.held)
    (hhandles : s'.handles = s.handles) (hissued : s'.issued = s.issued)
    (hbase : s'.base = s.base) : s'.Accounted plan :=
  ⟨by rw [hheld, hhandles]; exact h.lazy, by rw [hhandles]; exact h.eager,
    by rw [hhandles]; exact h.nodup, by rw [hhandles, hissued]; exact h.issued,
    by rw [hbase]; exact h.started⟩

lemma held_of_cursor (hcursor : s.frame.cursor = none) :
    s.held = s.stack.filterMap fun f => f.cursor.map (·.handle) := by
  rw [held, List.filterMap_cons, hcursor]
  rfl

lemma held_save {f : Frame} (hcursor : f.cursor = none) : (s.save f).held = s.held := by
  have hstack : (s.save f).held
      = (s.frame :: f :: s.stack).filterMap fun f => f.cursor.map (·.handle) := rfl
  rw [hstack, held, List.filterMap_cons, List.filterMap_cons, List.filterMap_cons, hcursor]
  rfl

/-- A frame without a cursor may be dropped. -/
lemma Accounted.pop (h : s.Accounted plan) (hcursor : s.frame.cursor = none) :
    s.pop.Accounted plan := by
  have hheld := held_of_cursor hcursor
  unfold Scan.pop
  cases hstack : s.stack with
  | nil =>
    rw [hstack] at hheld
    exact h.congr hheld.symm rfl rfl rfl
  | cons f fs =>
    rw [hstack] at hheld
    exact h.congr hheld.symm rfl rfl rfl

/-! ## Directories that are opened and closed -/

/-- **Names that are put in order cost no handle in the end**: the one that their listing was given
has been given back, and no other, whatever the reading and the comparisons have come to. -/
lemma handles_sortCursor (hissued : ∀ n ∈ s.handles, n < s.issued) (listing : Listing)
    (directory : String) :
    ((s.takeHandle listing).1.sortCursor plan directory (s.takeHandle listing).2).1.handles
      = s.handles := by
  rw [sortCursor_eq]
  have hgiven : (s.issued :: s.handles).filter (!(some s.issued).toList.contains ·)
      = s.handles.filter (!(some s.issued).toList.contains ·) :=
    List.filter_cons_of_neg (by simp)
  refine hgiven.trans (List.filter_eq_self.mpr fun n hn => ?_)
  simp [Nat.ne_of_lt (hissued n hn)]

/-- **What opening a directory does to the handles**: those that were held are held, and a new one
if names are read as they are listed; the cursor goes with it. -/
lemma handles_of_openCursor (hissued : ∀ n ∈ s.handles, n < s.issued) {directory : String}
    {result : Except Fault Cursor} (hopen : s.openCursor r plan directory = (s', result)) :
    s.issued ≤ s'.issued ∧
      (s'.handles = s.handles ∧ (plan.sorting.isEager = true ∨ ∃ fault, result = .error fault) ∨
        plan.sorting.isEager = false ∧ s'.handles = s.issued :: s.handles ∧ s.issued < s'.issued ∧
          ∃ c, result = .ok c ∧ c.handle = some s.issued) := by
  rw [Scan.openCursor] at hopen
  cases hopened : r.openDirectory (orDot directory) with
  | error fault =>
    rw [hopened] at hopen
    cases hopen
    exact ⟨Nat.le_refl _, .inl ⟨rfl, .inr ⟨fault, rfl⟩⟩⟩
  | ok listing =>
    simp only [hopened] at hopen
    cases heager : plan.sorting.isEager with
    | true =>
      simp only [heager, if_true] at hopen
      have hhandles : s'.handles = s.handles :=
        (congrArg (·.1.handles) hopen).symm.trans
          (handles_sortCursor (s := s.emit (.opened (orDot directory))) hissued listing directory)
      rw [sortCursor_eq] at hopen
      obtain ⟨rfl, -⟩ := Prod.mk.inj hopen
      exact ⟨Nat.le_succ _, .inl ⟨hhandles, .inl rfl⟩⟩
    | false =>
      simp only [heager, Bool.false_eq_true, if_false] at hopen
      cases hopen
      exact ⟨Nat.le_succ _, .inr ⟨rfl, rfl, Nat.lt_succ_self _, _, rfl, rfl⟩⟩

/-- A directory that gives nothing leaves no handle behind. -/
lemma Accounted.refused (h : s.Accounted plan) {directory : String} {fault : Fault}
    (hopen : s.openCursor r plan directory = (s', .error fault)) : s'.Accounted plan := by
  have hhandles := handles_of_openCursor h.issued hopen
  obtain ⟨handles, issued, events, rfl⟩ := scan_of_openCursor hopen
  obtain ⟨hissued, ⟨rfl, -⟩ | ⟨-, -, -, c, hc, -⟩⟩ := hhandles
  · exact ⟨h.lazy, h.eager, h.nodup, fun n hn => Nat.lt_of_lt_of_le (h.issued n hn) hissued,
      h.started⟩
  · cases hc

/-- **The frame that takes a cursor answers for its handle.** -/
lemma Accounted.openCursor (h : s.Accounted plan) (hcursor : s.frame.cursor = none)
    {directory : String} {c : Cursor} (hopen : s.openCursor r plan directory = (s', .ok c))
    {f : Frame} (hf : f.cursor = some c) : ({ s' with frame := f } : Scan).Accounted plan := by
  have hhandles := handles_of_openCursor h.issued hopen
  obtain ⟨handles, issued, events, rfl⟩ := scan_of_openCursor hopen
  obtain ⟨hissued, ⟨rfl, heager | ⟨_, hfault⟩⟩ | ⟨hlazy, rfl, hless, _, hok, hc⟩⟩ := hhandles
  · refine ⟨fun hlazy => ?_, h.eager, h.nodup, ?_, h.started⟩
    · rw [heager] at hlazy
      cases hlazy
    · exact fun n hn => Nat.lt_of_lt_of_le (h.issued n hn) hissued
  · cases hfault
  · cases hok
    refine ⟨fun _ => ?_, fun heager => ?_, ?_, ?_, h.started⟩
    · have hheld : s.held = s.stack.filterMap fun f => f.cursor.map (·.handle) :=
        held_of_cursor hcursor
      rw [held, List.filterMap_cons, hf, Option.map_some, hc, ← hheld]
      exact (h.lazy hlazy).cons _
    · rw [hlazy] at heager
      cases heager
    · exact List.nodup_cons.mpr ⟨fun hn => Nat.lt_irrefl _ (h.issued _ hn), h.nodup⟩
    · exact List.forall_mem_cons.mpr ⟨hless, fun n hn => (h.issued n hn).trans hless⟩

/-- **Closing the cursor of the current frame** gives its handle back, and no other. -/
lemma Accounted.closeCursor (h : s.Accounted plan) : s.closeCursor.Accounted plan := by
  have hsub : ∀ n ∈ s.closeCursor.handles, n ∈ s.handles := fun n hn => List.mem_of_mem_filter hn
  refine ⟨fun hlazy => ?_, fun heager => ?_, h.nodup.filter _,
    fun n hn => h.issued n (hsub n hn), h.started⟩
  · have hperm := h.lazy hlazy
    have hclosed : s.closeCursor.held = s.stack.filterMap fun f => f.cursor.map (·.handle) := rfl
    rw [hclosed]
    cases hcursor : s.frame.cursor with
    | none =>
      have hkept : s.closeCursor.handles = s.handles := by
        rw [Scan.closeCursor, release, Frame.handle?, hcursor]
        exact List.filter_eq_self.mpr fun _ _ => rfl
      rw [held_of_cursor hcursor] at hperm
      rw [hkept]
      exact hperm
    | some cursor =>
      have hheld : s.held
          = cursor.handle :: s.stack.filterMap fun f => f.cursor.map (·.handle) := by
        rw [held, List.filterMap_cons, hcursor]
        rfl
      rw [hheld] at hperm
      obtain ⟨n, hn, hhandle⟩ := List.mem_map.mp (hperm.subset List.mem_cons_self)
      have hgiven : s.closeCursor.handles = s.handles.erase n := by
        rw [Scan.closeCursor, release, Frame.handle?, hcursor, h.nodup.erase_eq_filter,
          Option.bind_some, ← hhandle]
        exact List.filter_congr fun m _ => by simp [bne, beq_eq_decide]
      have herase := hperm.erase (some n)
      rw [← hhandle, List.erase_cons_head,
        ← List.map_erase (Option.some_injective _)] at herase
      rw [hgiven]
      exact herase
  · rw [Scan.closeCursor, release, h.eager heager]
    rfl

/-- Cursors keep their handles while names are read from them. -/
lemma held_withUnread (s : Scan) (names : List String) :
    ({ s with frame := s.frame.withUnread names } : Scan).held = s.held := by
  rw [held, held, List.filterMap_cons, List.filterMap_cons, Frame.withUnread, Option.map_map]
  rfl

/-! ## Steps -/

/-- **A move accounts for its handles.** -/
lemma Move.accounted (hmove : Move r plan s s') (h : s.Accounted plan) : s'.Accounted plan := by
  cases hmove with
  | noted | marked | begun | descended | passed | expanded | turnedTo =>
    exact h.congr rfl rfl rfl rfl
  | refused hopen => exact h.refused hopen
  | dropped hcursor => exact h.pop hcursor
  | globbed hphase hbare hremaining hopen =>
    refine Accounted.openCursor ?_ ?_ hopen rfl
    · exact h.congr rfl rfl rfl rfl
    · exact hbare.1
  | listed hphase hcursor hpending henter hopen => exact h.openCursor hcursor hopen rfl
  | forked hphase hbare hremaining hwaits =>
    have hcursor := hwaits.kept.2.2.2.trans hbare.1
    exact h.congr (held_save hcursor) rfl rfl rfl
  | read => exact h.congr (held_withUnread s _) rfl rfl rfl
  | found => exact h.congr (held_withUnread s _) rfl rfl rfl
  | closed => exact h.closeCursor

/-- **A step of a scan accounts for its handles**, whatever the filesystem answers and wherever it
stops. -/
theorem Accounted.turn (h : s.Accounted plan) (hs : s.Coherent plan) :
    (s.turn r plan).1.Accounted plan :=
  hs.turn_preserves (fun _ _ _ hmove => hmove.accounted) h

/-- A coherent scan that accounts for its handles. -/
structure InOrder (plan : Plan) (s : Scan) : Prop where
  coherent : s.Coherent plan
  accounted : s.Accounted plan

lemma InOrder.turn (h : s.InOrder plan) : (s.turn r plan).1.InOrder plan :=
  ⟨h.coherent.turn, h.accounted.turn h.coherent⟩

/-! ## What is done between steps -/

/-- **A scan that is closed holds no handle.** -/
lemma Accounted.handles_close (h : s.Accounted plan) : s.close.handles = [] := by
  rw [Scan.close, release]
  refine List.filter_eq_nil_iff.mpr fun n hn => ?_
  cases heager : plan.sorting.isEager with
  | true =>
    rw [h.eager heager] at hn
    cases hn
  | false =>
    have hmem : some n ∈ s.held := (h.lazy heager).mem_iff.mpr (List.mem_map_of_mem hn)
    obtain ⟨f, hf, hcursor⟩ := List.mem_filterMap.mp hmem
    obtain ⟨c, hc, hhandle⟩ := Option.map_eq_some_iff.mp hcursor
    have hgiven : n ∈ (s.frame :: s.stack).filterMap Frame.handle? :=
      List.mem_filterMap.mpr ⟨f, hf, by rw [Frame.handle?, hc]; exact hhandle⟩
    rw [List.contains_iff_mem.mpr hgiven]
    exact Bool.false_ne_true

/-- A scan that has no cursor and no handle. -/
lemma accounted_of_none (hheld : s.held = []) (hhandles : s.handles = [])
    (hstarted : s.base.isSome) : s.Accounted plan := by
  refine ⟨fun _ => ?_, fun _ => hhandles, ?_, ?_, hstarted⟩ <;> simp [hheld, hhandles]

lemma InOrder.close (h : s.InOrder plan) : s.close.InOrder plan :=
  ⟨coherent_close s, accounted_of_none rfl h.accounted.handles_close h.accounted.started⟩

lemma InOrder.start (h : s.InOrder plan) (spec : PathSpec) : (s.start spec).InOrder plan :=
  ⟨coherent_start s spec, accounted_of_none rfl h.accounted.handles_close rfl⟩

lemma InOrder.bare_of_finished (h : s.InOrder plan) (hphase : s.frame.phase = .finished) :
    s.frame.Bare := by
  have hframe := h.coherent.frame
  rw [Frame.Coherent, hphase] at hframe
  exact hframe

/-- A scan that is over holds no handle. -/
lemma InOrder.handles_of_isFinished (h : s.InOrder plan) (hfinished : s.isFinished) :
    s.handles = [] := by
  obtain ⟨hphase, hstack⟩ := isFinished_iff.mp hfinished
  cases heager : plan.sorting.isEager with
  | true => exact h.accounted.eager heager
  | false =>
    have hperm := h.accounted.lazy heager
    rw [held_of_cursor (h.bare_of_finished hphase).1, hstack] at hperm
    exact List.map_eq_nil_iff.mp hperm.symm.eq_nil

lemma InOrder.append (h : s.InOrder plan) (spec : PathSpec) : (s.append spec).InOrder plan := by
  refine ⟨h.coherent.append spec, ?_⟩
  have hheld : ({ s with stack := s.stack ++ [.initial (.queued spec)] } : Scan).held = s.held := by
    rw [held, ← List.cons_append, List.filterMap_append]
    exact List.append_nil _
  have hqueued : ({ s with stack := s.stack ++ [.initial (.queued spec)] } : Scan).Accounted plan :=
    h.accounted.congr hheld rfl rfl rfl
  unfold Scan.append
  simp only
  split
  · next hphase => exact hqueued.pop (h.bare_of_finished hphase).1
  · exact hqueued

lemma InOrder.prepend (h : s.InOrder plan) (spec : PathSpec) : (s.prepend spec).InOrder plan := by
  refine ⟨h.coherent.prepend spec, ?_⟩
  unfold Scan.prepend
  split
  · next hphase =>
    have hcursor := (h.bare_of_finished hphase).1
    exact h.accounted.congr (held_of_cursor hcursor).symm rfl rfl rfl
  · exact h.accounted.congr rfl rfl rfl rfl

lemma InOrder.setMatcher (h : s.InOrder plan) (matcher : Pattern) :
    (s.setMatcher matcher).InOrder plan := by
  refine ⟨h.coherent.setMatcher matcher, ?_⟩
  obtain ⟨hlazy, heager, hnodup, hissued, hstarted⟩ := h.accounted
  exact ⟨hlazy, heager, hnodup, hissued, by rw [Scan.setMatcher]; simpa using hstarted⟩

/-! ## Runs -/

section

variable {σ ρ : Type} {step : σ → σ ⊕ ρ} {p : σ → Prop} {q : ρ → Prop}

/-- What each round preserves, repeating preserves. -/
lemma repeatTimes_preserves (hstep : ∀ a, p a → (step a).elim p q) (n : ℕ) {a : σ} (ha : p a) :
    (repeatTimes step n a).elim p q := by
  induction n generalizing a with
  | zero => exact ha
  | succ n ih =>
    have hnext := hstep a ha
    rw [repeatTimes]
    cases hround : step a with
    | inl b =>
      rw [hround] at hnext
      exact ih hnext
    | inr b =>
      rw [hround] at hnext
      exact hnext

lemma repeatDoubling_preserves (hstep : ∀ a, p a → (step a).elim p q) (portions k : ℕ) {a : σ}
    (ha : p a) : (repeatDoubling step portions k a).elim p q := by
  rw [repeatDoubling_eq]
  exact repeatTimes_preserves hstep _ ha

end

section

variable {p : Scan → Prop} (hturn : ∀ s, p s → p (s.turn r plan).1)

include hturn

/-- What each step preserves, asking for the next result preserves, whatever comes of it. -/
lemma advance_preserves (h : p s) : p (s.advance r plan).1 := by
  have hround : ∀ s, p s → (towardsNext r plan s).elim p fun found => p found.1 := by
    intro s hs
    have hnext := hturn s hs
    rw [towardsNext]
    rcases hstep : s.turn r plan with ⟨s', signal⟩
    rw [hstep] at hnext
    cases signal <;> exact hnext
  have hall := repeatDoubling_preserves hround (s.patience r) 0 h
  rw [Scan.advance]
  cases hrepeat : repeatDoubling (towardsNext r plan) (s.patience r) 0 s with
  | inl s' => rw [hrepeat] at hall; exact hall
  | inr found => rw [hrepeat] at hall; exact hall

/-- So does asking for all results. -/
lemma drain_preserves (h : p s) : p (s.drain r plan).1 := by
  have hround : ∀ state : Scan × List Answer, p state.1 →
      (towardsEnd r plan state).elim (fun state => p state.1) fun found => p found.1 := by
    intro state hs
    have hnext := hturn state.1 hs
    rw [towardsEnd]
    rcases hstep : state.1.turn r plan with ⟨s', signal⟩
    rw [hstep] at hnext
    match signal with
    | .running | .answered none | .answered (some _) | .raised _ => exact hnext
  have hall := repeatDoubling_preserves (p := fun state => p state.1) hround (s.patience r) 0
    (a := (s, [])) h
  rw [Scan.drain]
  cases hrepeat : repeatDoubling (towardsEnd r plan) (s.patience r) 0 (s, []) with
  | inl state => rw [hrepeat] at hall; exact hall
  | inr found => rw [hrepeat] at hall; exact hall

end

/-- **Asking for the next result keeps a scan in order**, whatever comes of it. -/
theorem InOrder.advance (h : s.InOrder plan) (r : Reader) : (s.advance r plan).1.InOrder plan :=
  advance_preserves (fun _ hs => hs.turn) h

/-- So does every other call. -/
lemma InOrder.afterCall (h : s.InOrder plan) (hs : s.AfterCall r plan s') : s'.InOrder plan := by
  cases hs with
  | kept => exact h
  | advanced => exact h.advance r
  | appended spec => exact h.append spec
  | prepended spec => exact h.prepend spec
  | closed => exact h.close

/-- Asking for all results keeps a scan in order. -/
theorem InOrder.drain (h : s.InOrder plan) (r : Reader) : (s.drain r plan).1.InOrder plan :=
  drain_preserves (fun _ hs => hs.turn) h

end Scan

/-! ## Expansions -/

/-- What can be asked of an expansion, at any time. -/
inductive Request where
  | call (c : Call)
  | all
  | setMatch (pattern : Setting)
  | reset

namespace Expansion

variable {o : Options} {e : Expansion}

/-- An expansion after a request.  A pattern that is refused leaves it as it was. -/
def request (r : Reader) (e : Expansion) : Request → Expansion
  | .call c => (e.call r c).1
  | .all => (e.all r).1
  | .setMatch pattern =>
    match e.setMatch pattern with
    | .ok e => e
    | .error _ => e
  | .reset => e.reset

/-- An expansion after requests in a row, each with the filesystem as it stands then. -/
def afterRequests (e : Expansion) (requests : List (Reader × Request)) : Expansion :=
  requests.foldl (fun e q => e.request q.1 q.2) e

/-- An expansion whose scan is in order. -/
def InOrder (e : Expansion) : Prop := e.scan.InOrder e.plan

/-- Starting over begins with the path that was given at the start. -/
lemma InOrder.reset_eq (h : e.InOrder) :
    ∃ (s : Scan) (spec : PathSpec), s.InOrder e.plan ∧ e.scan.base = some spec ∧
      e.reset = { e with scan := s.start spec } := by
  obtain ⟨spec, hbase⟩ := Option.isSome_iff_exists.mp h.accounted.started
  refine ⟨{ e.scan with policy := e.scan.policy.reset }, spec, ⟨h.coherent.congr rfl rfl,
    h.accounted.congr rfl rfl rfl rfl⟩, hbase, ?_⟩
  simp only [reset, hbase]

/-- **Each request keeps an expansion in order**, and its plan as it is. -/
lemma InOrder.request (h : e.InOrder) (r : Reader) (q : Request) :
    (e.request r q).InOrder ∧ (e.request r q).plan = e.plan := by
  cases q with
  | call c =>
    obtain ⟨s, heq, hs⟩ := e.exists_afterCall r c
    rw [Expansion.request, heq]
    exact ⟨Scan.InOrder.afterCall h hs, rfl⟩
  | all => exact ⟨Scan.InOrder.drain h r, rfl⟩
  | setMatch pattern =>
    rw [Expansion.request, Expansion.setMatch]
    cases pattern.toPatternInput.compile e.plan.ignoreCase with
    | error problem => exact ⟨h, rfl⟩
    | ok matcher => exact ⟨Scan.InOrder.setMatcher h matcher, rfl⟩
  | reset =>
    obtain ⟨s, spec, hs, _, hreset⟩ := h.reset_eq
    rw [Expansion.request, hreset]
    exact ⟨Scan.InOrder.start hs spec, rfl⟩

lemma InOrder.afterRequests (h : e.InOrder) (requests : List (Reader × Request)) :
    (e.afterRequests requests).InOrder ∧ (e.afterRequests requests).plan = e.plan := by
  induction requests generalizing e with
  | nil => exact ⟨h, rfl⟩
  | cons q requests ih =>
    obtain ⟨hinOrder, hplan⟩ := h.request q.1 q.2
    obtain ⟨hrest, hplan'⟩ := ih hinOrder
    exact ⟨hrest, hplan'.trans hplan⟩

lemma inOrder_of_ofOptions (he : ofOptions o = .ok e) : e.InOrder := by
  obtain ⟨_, _, spec, hscan⟩ := ofOptions_ok he
  rw [InOrder, hscan]
  exact ⟨Scan.coherent_start _ spec, Scan.accounted_of_none rfl rfl rfl⟩

lemma InOrder.handles_close (h : e.InOrder) : e.close.scan.handles = [] :=
  h.accounted.handles_close

lemma InOrder.handles_reset (h : e.InOrder) : e.reset.scan.handles = [] := by
  obtain ⟨s, spec, hs, _, hreset⟩ := h.reset_eq
  rw [hreset]
  exact hs.accounted.handles_close

end Expansion

/-! ## Streams -/

/-- A stream after it has been asked for results in a row, each with the filesystem as it stands
then. -/
def Stream.afterNexts (stream : Stream) (readers : List Reader) : Stream :=
  readers.foldl (fun stream r => (stream.next r).1) stream

/-- A stream whose expansion is in order, and holds no handle once the stream has ended. -/
def Stream.InOrder : Stream → Prop
  | .waiting _ | .ended none => True
  | .running e => e.InOrder
  | .ended (some e) => e.scan.handles = []

namespace Stream

variable {stream : Stream} {e : Expansion}

lemma inOrder_advance (h : e.InOrder) (r : Reader) : (advance r e).1.InOrder := by
  have hnext : (e.next r).1.InOrder := Scan.InOrder.advance h r
  rw [advance]
  rcases houtcome : e.next r with ⟨e', outcome⟩
  rw [houtcome] at hnext
  match outcome with
  | .value (some answer) => exact hnext
  | .value none | .raised _ | .unfinished => exact hnext.handles_close

lemma create_ok {named : List (String × Setting)} (h : Expansion.create named = .ok e) :
    e.InOrder := by
  rw [Expansion.create] at h
  split_ifs at h
  obtain ⟨o, _, h⟩ := bind_eq_ok.mp h
  exact Expansion.inOrder_of_ofOptions h

lemma InOrder.next (h : stream.InOrder) (r : Reader) : (stream.next r).1.InOrder := by
  cases stream with
  | waiting named =>
    rw [Stream.next]
    cases hcreate : Expansion.create named with
    | error problem => trivial
    | ok e => exact inOrder_advance (create_ok hcreate) r
  | running e => exact inOrder_advance h r
  | ended e => exact h

lemma InOrder.afterNexts (h : stream.InOrder) (readers : List Reader) :
    (stream.afterNexts readers).InOrder := by
  induction readers generalizing stream with
  | nil => exact h
  | cons r readers ih => exact ih (h.next r)

lemma InOrder.close (h : stream.InOrder) : stream.close.InOrder := by
  cases stream with
  | waiting named => trivial
  | running e => exact Expansion.InOrder.handles_close h
  | ended e => exact h

end Stream

namespace Expansion

variable {o : Options} {e : Expansion}

/-- **What is known of the handles of an expansion** between two requests. -/
structure AccountsForHandles (o : Options) (e : Expansion) : Prop where
  /-- The handles given and not given back are those of the cursors that frames hold, and each is
  held by one frame. -/
  lazy : o.sorting.isEager = false →
    e.scan.held.Perm (e.scan.handles.map some) ∧ e.scan.handles.Nodup
  /-- If names are put in order, there are none. -/
  eager : o.sorting.isEager = true → e.scan.handles = []
  exhausted : e.isExhausted → e.scan.handles = []
  closed : e.close.scan.handles = []
  startedOver : e.reset.scan.handles = []

/-- An expansion in order accounts for its handles. -/
lemma InOrder.accountsForHandles (h : e.InOrder) (hsorting : e.plan.sorting = o.sorting) :
    e.AccountsForHandles o where
  lazy := fun hlazy => ⟨h.accounted.lazy (by rw [hsorting]; exact hlazy), h.accounted.nodup⟩
  eager := fun heager => h.accounted.eager (by rw [hsorting]; exact heager)
  exhausted := Scan.InOrder.handles_of_isFinished h
  closed := h.handles_close
  startedOver := h.handles_reset

/-- **No handle is lost, and none is held twice**, whatever is asked of an expansion, however the
filesystem has changed in between, and whatever the requests came to.  Streams hold none once they
have ended or were left, and `collect` leaves none behind. -/
theorem handles_accounted (he : ofOptions o = .ok e) (requests : List (Reader × Request)) :
    (e.afterRequests requests).AccountsForHandles o ∧
    (∀ named readers e', (Stream.waiting named).afterNexts readers = .ended (some e') →
      e'.scan.handles = []) ∧
    (∀ named readers e', ((Stream.waiting named).afterNexts readers).close = .ended (some e') →
      e'.scan.handles = []) ∧
    ∀ r named e', (collect r named).1 = some e' → e'.scan.handles = [] := by
  have hstream : ∀ named readers, ((Stream.waiting named).afterNexts readers).InOrder := by
    intro named readers
    have hwaiting : (Stream.waiting named).InOrder := trivial
    exact hwaiting.afterNexts readers
  refine ⟨?_, fun named readers e' hended => ?_, fun named readers e' hended => ?_,
    fun r named e' hcollect => ?_⟩
  · obtain ⟨hinOrder, hplan⟩ := (inOrder_of_ofOptions he).afterRequests requests
    exact hinOrder.accountsForHandles (by rw [hplan, (ofOptions_ok he).1])
  · have h := hstream named readers
    rw [hended] at h
    exact h
  · have h := (hstream named readers).close
    rw [hended] at h
    exact h
  · rw [collect] at hcollect
    cases hcreate : create named with
    | error problem =>
      rw [hcreate] at hcollect
      cases hcollect
    | ok e =>
      rw [hcreate] at hcollect
      cases hcollect
      have hall : (e.all r).1.InOrder := Scan.InOrder.drain (Stream.create_ok hcreate) r
      exact hall.handles_close

/-- A filesystem in which every directory has the same two directories in it. -/
def twoEach : Reader where
  openDirectory _ := .ok ⟨["a", "b"], none⟩
  isPresent _ := true
  isDirectory _ := true
  isLink _ := false
  identity path := .unresolved path
  extent := 2

/-- A search that is interrupted by another waits with its two directories open. -/
theorem handles_accounted_interrupted :
    ∃ e, ofOptions { path := .datum (.text "*/*") } = .ok e ∧
      ∃ requests : List (Reader × Request),
        requests = [(twoEach, .call .next),
          (twoEach, .call (.prepend (.datum (.text "b/*")) .nothing .nothing)),
          (twoEach, .call .next)] ∧
        (e.afterRequests requests).scan.handles = [2, 1, 0] ∧
        (e.afterRequests requests).AccountsForHandles { path := .datum (.text "*/*") } := by
  have hheld : (ofOptions { path := .datum (.text "*/*") }).toOption.map
      (fun e => (e.afterRequests
        [(twoEach, .call .next),
          (twoEach, .call (.prepend (.datum (.text "b/*")) .nothing .nothing)),
          (twoEach, .call .next)]).scan.handles)
      = some [2, 1, 0] := by
    decide +kernel
  cases he : ofOptions { path := .datum (.text "*/*") } with
  | error problem =>
    rw [he] at hheld
    cases hheld
  | ok e =>
    rw [he] at hheld
    exact ⟨e, rfl, _, rfl, Option.some.inj hheld, (handles_accounted he _).1⟩

/-- In order of its names, a directory whose listing breaks off has been given a handle and holds
none. -/
example : (ofOptions { path := .datum (.text "*/*"), sort := .datum (.truth true) }).toOption.map
    (fun e =>
      let broken : Reader :=
        { twoEach with openDirectory := fun _ => .ok ⟨["a"], some ⟨.system, []⟩⟩ }
      let e := e.afterRequests [(broken, .call .next)]
      (e.scan.issued, e.scan.handles)) = some (1, []) := by
  decide +kernel

end Expansion

end PathExpansion
