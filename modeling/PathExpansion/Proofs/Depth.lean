import PathExpansion.Proofs.Alarms

/-!
# Open directories lie inside one another

A scan that goes down has a directory open at each level it has come through, and others wait to be
listed.  Whatever was queued in between and wherever an error stopped it, the directories that it
has open are those of one way down: each is inside the one that was opened before.  So there are
never more of them than the way is long.  Only a path that is served first begins another way while
the first is open.

* `Below` — a path that begins with another and leads further.
* `Frame.Nested`, `Scan.IsNested` — the invariant: each frame stands below the directory that is
  open nearest behind it.
* **`Scan.IsNested.turn`** — a step preserves it, for any filesystem whose names are names.
* `Scan.OpensInside` — what is known of the directories that are open;
  `Frame.Nested.pairwise_openPaths`, `Scan.IsInDepth.opensInside` — frames inside one another give
  it.
* **`Expansion.handles_le_depth`** — open directories are bounded by depth, unless a path is served
  first.
-/

namespace PathExpansion

/-! ## One path below another -/

/-- **A path below a directory**: it begins with the directory's path, and leads further down. -/
structure Below (directory path : String) : Prop where
  isPrefix : directory.toList <+: path.toList
  deeper : (Tree.placeOf directory).length < (Tree.placeOf path).length

lemma Below.trans {a b c : String} (h : Below a b) (h' : Below b c) : Below a c :=
  ⟨h.isPrefix.trans h'.isPrefix, h.deeper.trans h'.deeper⟩

lemma below_append {path name : String} (henter : isEnterable path) (hname : IsName name) :
    Below path (path ++ name) where
  isPrefix := by
    rw [String.toList_append]
    exact List.prefix_append _ _
  deeper := by
    rw [Tree.placeOf_append_name henter hname]
    exact Nat.lt_succ_self _

lemma Below.append_slash {directory path : String} (h : Below directory path) :
    Below directory (path ++ "/") where
  isPrefix := by
    rw [String.toList_append]
    exact h.isPrefix.trans (List.prefix_append _ _)
  deeper := by
    rw [Tree.placeOf_append_slash]
    exact h.deeper

/-- A name leads below the directory that it is in. -/
lemma below_of_extend {t : Trip} {path name : String} {visited : Visited} {descent : Bool}
    {p : String × Visited} (henter : isEnterable path) (hname : IsName name)
    (h : t.extend path visited name descent = some p) : Below path p.1 := by
  have hbelow := below_append henter hname
  rcases Trip.extend_place h with hp | ⟨hp, _⟩
  · rw [hp]
    exact hbelow
  · rw [hp]
    exact hbelow.append_slash

/-! ## Frames inside one another -/

namespace Frame

/-- The directories that frames have open, that of the frame on top first. -/
def openPaths (fs : List Frame) : List String := (fs.filter (·.cursor.isSome)).map (·.path)

/-- A path below the innermost of the directories that frames have open, if there is one. -/
def LiesBelow (fs : List Frame) (path : String) : Prop := ∀ b ∈ (openPaths fs).head?, Below b path

/-- **A frame of names**: what it takes literally are names, also if it has yet to begin. -/
structure IsNamed (f : Frame) : Prop where
  remaining : ∀ name descent, .literal name descent ∈ f.remaining → IsName name
  queued : ∀ spec, f.root = .queued spec → spec.IsNamed

/-- **A sound frame**: one of names, and what it has open or waiting, or is going to open, can be
entered. -/
structure Sound (f : Frame) : Prop where
  named : f.IsNamed
  unread : ∀ c ∈ f.cursor, ∀ name ∈ c.unread, IsName name
  opened : f.cursor.isSome → isEnterable f.path
  pending : ∀ d ∈ f.pending.getD [], isEnterable d.1
  component : f.phase = .component → needsDirectory f.remaining → isEnterable f.path

/-- **Where a frame stands** on top of others: below the innermost directory that they have open,
with all that waits, or in it, about to go down by a name that was read there. -/
def StandsOn (f : Frame) (fs : List Frame) : Prop :=
  match f.phase with
  | .initial => openPaths fs = []
  | .component => LiesBelow fs f.path ∨
      (openPaths fs).head? = some f.path ∧
        ∃ name descent rest, f.remaining = .literal name descent :: rest
  | .listing => LiesBelow fs f.path
  | .ellipsis => LiesBelow fs f.path ∧ ∀ d ∈ f.pending.getD [], LiesBelow fs d.1
  | .finished => True

/-- **Frames inside one another**, that on top first. -/
def Nested : List Frame → Prop
  | [] => True
  | f :: fs => f.Sound ∧ f.StandsOn fs ∧ Nested fs

variable {f g : Frame} {fs : List Frame} {plan : Plan}

lemma openPaths_of_cursor (hcursor : f.cursor = none) : openPaths (f :: fs) = openPaths fs := by
  simp [openPaths, hcursor]

lemma openPaths_of_isSome (hcursor : f.cursor.isSome) :
    openPaths (f :: fs) = f.path :: openPaths fs := by
  simp [openPaths, hcursor]

lemma openPaths_append_initial (fs : List Frame) (root : Root) :
    openPaths (fs ++ [initial root]) = openPaths fs := by
  rw [openPaths, openPaths, List.filter_append, List.map_append]
  exact List.append_nil _

lemma isSome_withUnread (f : Frame) (names : List String) :
    (f.withUnread names).cursor.isSome = f.cursor.isSome := Option.isSome_map

lemma LiesBelow.trans {p q : String} (h : LiesBelow fs p) (hpq : Below p q) : LiesBelow fs q :=
  fun b hb => (h b hb).trans hpq

lemma LiesBelow.of_cursor {path : String} (h : LiesBelow fs path) (hcursor : f.cursor = none) :
    LiesBelow (f :: fs) path := by
  rw [LiesBelow, openPaths_of_cursor hcursor]
  exact h

lemma head?_openPaths (hcursor : f.cursor.isSome) : (openPaths (f :: fs)).head? = some f.path := by
  rw [openPaths_of_isSome hcursor, List.head?_cons]

lemma liesBelow_of_isSome {path : String} (hcursor : f.cursor.isSome) (h : Below f.path path) :
    LiesBelow (f :: fs) path := by
  intro b hb
  rw [head?_openPaths hcursor] at hb
  rw [← Option.some.inj hb]
  exact h

lemma IsNamed.congr (h : f.IsNamed) (hremaining : g.remaining = f.remaining)
    (hroot : g.root = f.root) :
    g.IsNamed :=
  ⟨by rw [hremaining]; exact h.remaining, by rw [hroot]; exact h.queued⟩

/-- What remains after a component is of names too. -/
lemma IsNamed.tail (h : f.IsNamed) {c : Component} (hremaining : f.remaining = c :: g.remaining)
    (hroot : g.root = f.root) : g.IsNamed :=
  ⟨fun name descent hname => h.remaining name descent (by
    rw [hremaining]
    exact List.mem_cons_of_mem c hname), by rw [hroot]; exact h.queued⟩

/-- A frame has a directory open only while it reads names. -/
lemma Coherent.liesBelow_of_isSome (h : f.Coherent plan) (hcursor : f.cursor.isSome)
    (hstands : f.StandsOn fs) : LiesBelow fs f.path := by
  have hnone : f.cursor ≠ none := Option.isSome_iff_ne_none.mp hcursor
  unfold Coherent at h
  unfold StandsOn at hstands
  cases hphase : f.phase with
  | initial | component | finished =>
    rw [hphase] at h
    exact absurd h.1 hnone
  | listing =>
    rw [hphase] at hstands
    exact hstands
  | ellipsis =>
    rw [hphase] at hstands
    exact hstands.1

/-- **The directories that frames have open lie inside one another.** -/
theorem Nested.pairwise_openPaths (h : Nested fs) (hfs : ∀ f ∈ fs, f.Coherent plan) :
    (openPaths fs).Pairwise fun p q => Below q p := by
  have : Trans (fun p q => Below q p) (fun p q => Below q p) (fun p q => Below q p) :=
    ⟨fun h h' => h'.trans h⟩
  rw [← List.isChain_iff_pairwise]
  induction fs with
  | nil => exact .nil
  | cons f fs ih =>
    obtain ⟨_, hstands, hrest⟩ := h
    obtain ⟨hf, hfs⟩ := List.forall_mem_cons.mp hfs
    rcases Option.eq_none_or_eq_some f.cursor with hcursor | ⟨c, hcursor⟩
    · rw [openPaths_of_cursor hcursor]
      exact ih hrest hfs
    · have hsome : f.cursor.isSome := by rw [hcursor]; rfl
      rw [openPaths_of_isSome hsome, List.isChain_cons]
      exact ⟨hf.liesBelow_of_isSome hsome hstands, ih hrest hfs⟩

/-- **There are no more of them than the way to the innermost is long**, and the one where it
begins. -/
theorem length_le_of_pairwise {p : String} {ps : List String}
    (h : (p :: ps).Pairwise fun p q => Below q p) :
    (p :: ps).length ≤ 1 + (Tree.placeOf p).length := by
  induction ps generalizing p with
  | nil => exact Nat.le_add_right _ _
  | cons q ps ih =>
    obtain ⟨hp, hrest⟩ := List.pairwise_cons.mp h
    have hbound := ih hrest
    have hdeeper := (hp q List.mem_cons_self).deeper
    rw [List.length_cons]
    omega

/-! ### Frames that are put on top, or at the bottom -/

/-- A frame that has nothing open and nothing waiting is sound if its next component can be
taken. -/
lemma sound_of_bare (hbare : f.Bare) (hnamed : f.IsNamed)
    (hcomponent : f.phase = .component → needsDirectory f.remaining → isEnterable f.path) :
    f.Sound := by
  refine ⟨hnamed, ?_, ?_, ?_, hcomponent⟩
  · rw [hbare.1]
    exact fun _ hc => by cases hc
  · rw [hbare.1]
    exact fun hc => by cases hc
  · rw [hbare.2]
    exact List.forall_mem_nil _

lemma nested_initial {root : Root} (hroot : ∀ spec, root = .queued spec → spec.IsNamed) :
    Nested [initial root] := by
  have hnamed : (initial root).IsNamed := ⟨fun _ _ h => absurd h List.not_mem_nil, hroot⟩
  exact ⟨sound_of_bare ⟨rfl, rfl⟩ hnamed (fun h => by cases h), rfl, trivial⟩

lemma nested_finished (h : Nested fs) : Nested (finished :: fs) := by
  have hnamed : finished.IsNamed :=
    ⟨fun _ _ h => absurd h List.not_mem_nil, fun _ h => by cases h⟩
  exact ⟨sound_of_bare ⟨rfl, rfl⟩ hnamed (fun h => by cases h), trivial, h⟩

/-- Where a frame stands depends on what is open below it only. -/
lemma StandsOn.congr {fs' : List Frame} (h : f.StandsOn fs) (hopen : openPaths fs' = openPaths fs) :
    f.StandsOn fs' := by
  unfold StandsOn LiesBelow at h ⊢
  rw [hopen]
  exact h

/-- A root that waits behind everything else has nothing open. -/
lemma Nested.append_initial (h : Nested fs) {root : Root}
    (hroot : ∀ spec, root = .queued spec → spec.IsNamed) : Nested (fs ++ [initial root]) := by
  induction fs with
  | nil => exact nested_initial hroot
  | cons f fs ih =>
    obtain ⟨hsound, hstands, hrest⟩ := h
    exact ⟨hsound, hstands.congr (openPaths_append_initial fs root), ih hrest⟩

/-- A frame that is about to take its next component. -/
lemma Nested.component (h : Nested fs) (hphase : f.phase = .component) (hbare : f.Bare)
    (hnamed : f.IsNamed) (henter : needsDirectory f.remaining → isEnterable f.path)
    (hstands : LiesBelow fs f.path ∨ (openPaths fs).head? = some f.path ∧
      ∃ name descent rest, f.remaining = .literal name descent :: rest) : Nested (f :: fs) := by
  refine ⟨sound_of_bare hbare hnamed fun _ => henter, ?_, h⟩
  rw [StandsOn, hphase]
  exact hstands

/-- A frame that takes an ellipsis further, with directories that wait. -/
lemma Nested.ellipsis (h : Nested fs) (hphase : f.phase = .ellipsis) (hsound : f.Sound)
    (hbelow : LiesBelow fs f.path) (hpending : ∀ d ∈ f.pending.getD [], LiesBelow fs d.1) :
    Nested (f :: fs) := by
  refine ⟨hsound, ?_, h⟩
  rw [StandsOn, hphase]
  exact ⟨hbelow, hpending⟩

end Frame

namespace Scan

open PathExpansion.Frame

variable {r : Reader} {plan : Plan} {s s' : Scan}

/-- **A scan whose frames are inside one another.** -/
def IsNested (s : Scan) : Prop := Nested (s.frame :: s.stack)

/-- A scan whose current frame has nothing open or waiting, and stands below what is open behind
it. -/
structure IsDeeper (s : Scan) : Prop where
  bare : s.frame.Bare
  sound : s.frame.Sound
  below : LiesBelow s.stack s.frame.path
  stack : Nested s.stack

lemma IsNested.congr (h : s.IsNested) (hframe : s'.frame = s.frame) (hstack : s'.stack = s.stack) :
    s'.IsNested := by
  rw [IsNested, hframe, hstack]
  exact h

lemma isNested_pop (h : Nested s.stack) : s.pop.IsNested := by
  unfold Scan.pop
  cases hstack : s.stack with
  | nil => exact nested_finished trivial
  | cons f fs =>
    rw [hstack] at h
    exact h

/-- Where the names of a filesystem are names, a cursor is over names. -/
lemma names_of_openCursor (hr : r.ListsNames) {directory : String} {c : Cursor}
    (hopen : s.openCursor r plan directory = (s', .ok c)) : ∀ name ∈ c.unread, IsName name := by
  obtain ⟨handle, handles, issued, hopened⟩ := s.openCursor_eq r plan directory
  rw [hopened] at hopen
  cases hl : r.listed plan directory with
  | error fault =>
    rw [hl] at hopen
    cases hopen
  | ok l =>
    rw [hl] at hopen
    cases hopen
    exact fun name hname => hr.isName hl hname

/-! ## One component -/

/-- All but names are taken below what is open behind the frame. -/
lemma IsNested.isDeeper (h : s.IsNested) (hphase : s.frame.phase = .component)
    (hbare : s.frame.Bare)
    {c : Component} {rest : List Component} (hremaining : s.frame.remaining = c :: rest)
    (hname : ∀ name descent, c ≠ .literal name descent) : s.IsDeeper := by
  obtain ⟨hsound, hstands, hstack⟩ := h
  refine ⟨hbare, hsound, ?_, hstack⟩
  rw [StandsOn, hphase] at hstands
  rcases hstands with hbelow | ⟨_, name, descent, _, hfirst⟩
  · exact hbelow
  · exact absurd (List.cons.inj (hremaining.symm.trans hfirst)).1 (hname name descent)

/-- A name leads from where a frame stands, or from the directory in which it was read, to below
what is open behind it. -/
lemma IsNested.descended (h : s.IsNested) (hphase : s.frame.phase = .component)
    (hbare : s.frame.Bare)
    {name : String} {descent : Bool} {rest : List Component} {p : String × Visited}
    (hremaining : s.frame.remaining = .literal name descent :: rest)
    (hextend : (s.trip r plan).extend s.frame.path s.frame.visited name descent = some p)
    (hdeep : needsDirectory rest → isEnterable p.1) :
    ({ s with frame :=
      { s.frame with path := p.1, visited := p.2, remaining := rest } } : Scan).IsNested := by
  obtain ⟨hsound, hstands, hstack⟩ := h
  have hname : IsName name := hsound.named.remaining name descent (by simp [hremaining])
  have henter : isEnterable s.frame.path := hsound.component hphase (by rw [hremaining]; rfl)
  have hdeeper : Below s.frame.path p.1 := below_of_extend henter hname hextend
  rw [StandsOn, hphase] at hstands
  refine hstack.component hphase hbare (hsound.named.tail hremaining rfl) hdeep (Or.inl ?_)
  rcases hstands with hbelow | ⟨hhead, _⟩
  · exact hbelow.trans hdeeper
  · intro b hb
    rw [← Option.some.inj (hhead.symm.trans hb)]
    exact hdeeper

section

variable (h : s.IsDeeper)

include h

lemma IsDeeper.globbed (hr : r.ListsNames) (hphase : s.frame.phase = .component) {w : Wildcard}
    {rest : List Component} {c : Cursor} (hremaining : s.frame.remaining = .wildcard w :: rest)
    (hopen : ({ s with frame := { s.frame with remaining := rest } } : Scan).openCursor r plan
      s.frame.path = (s', .ok c)) :
    ({ s' with frame := { s'.frame with
      cursor := some c, wildcard := some w, phase := .listing } } : Scan).IsNested := by
  have henter : isEnterable s.frame.path := h.sound.component hphase (by rw [hremaining]; rfl)
  have hnames := names_of_openCursor hr hopen
  obtain ⟨_, _, _, rfl⟩ := scan_of_openCursor hopen
  refine ⟨⟨h.sound.named.tail hremaining rfl, fun c' hc' => ?_, fun _ => henter, h.sound.pending,
    fun hc => by cases hc⟩, h.below, h.stack⟩
  cases hc'
  exact hnames

lemma IsDeeper.passed (hphase : s.frame.phase = .component) {c : Component} {rest : List Component}
    (hremaining : s.frame.remaining = c :: rest) :
    ({ s with frame := { s.frame with remaining := rest } } : Scan).IsNested := by
  refine h.stack.component hphase h.bare (h.sound.named.tail hremaining rfl) (fun hdeep => ?_)
    (Or.inl h.below)
  exact h.sound.component hphase (by rw [hremaining]; exact needsDirectory_cons hdeep)

/-- The frame that waits where an ellipsis is taken stands where the current frame does. -/
lemma IsDeeper.nested_waits (hphase : s.frame.phase = .component)
    {rest : List Component} {f : Frame} (hremaining : s.frame.remaining = .ellipsis :: rest)
    (hwaits : Waits plan { s.frame with remaining := rest } f) : Nested (f :: s.stack) := by
  have hnamed : f.IsNamed := by
    obtain ⟨hroot, hrest, -⟩ := hwaits.kept
    exact h.sound.named.tail (hremaining.trans (by rw [hrest])) hroot
  cases hwaits with
  | further =>
    refine h.stack.ellipsis rfl (sound_of_bare h.bare hnamed fun hc => by cases hc) h.below ?_
    simp only [h.bare.2]
    exact List.forall_mem_nil _
  | after => exact h.passed hphase hremaining
  | levels =>
    have hwaiting :
        ∀ d ∈ if isEnterable s.frame.path then [(s.frame.path, s.frame.visited)] else [],
        d = (s.frame.path, s.frame.visited) ∧ isEnterable d.1 := fun d hd => eq_of_mem_waiting hd
    refine h.stack.ellipsis rfl ⟨hnamed, h.sound.unread, h.sound.opened, fun d hd => ?_,
      fun hc => by cases hc⟩ h.below fun d hd => ?_
    · exact (hwaiting d hd).2
    · rw [(hwaiting d hd).1]
      exact h.below

lemma IsDeeper.forked (hphase : s.frame.phase = .component) {rest : List Component} {f : Frame}
    (hremaining : s.frame.remaining = .ellipsis :: rest)
    (hwaits : Waits plan { s.frame with remaining := rest } f) : (s.save f).IsNested := by
  have hcursor : f.cursor = none := hwaits.kept.2.2.2.trans h.bare.1
  exact (h.nested_waits hphase hremaining hwaits).component hphase h.bare h.sound.named
    (h.sound.component hphase) (Or.inl (h.below.of_cursor hcursor))

lemma IsDeeper.expanded {rest : List Component} (hrest : ∀ c ∈ rest, c ∈ s.frame.remaining)
    (henter : isEnterable s.frame.path) :
    ({ s with frame :=
      { s.frame with
        remaining := .wildcard (.anyEntry plan.ignoreCase) :: .ellipsis :: rest
        phase := .component } } : Scan).IsNested := by
  refine h.stack.component rfl h.bare ⟨fun name descent hname => ?_, h.sound.named.queued⟩
    (fun _ => henter) (Or.inl h.below)
  exact h.sound.named.remaining name descent (hrest _ (by simpa using hname))

end

/-! ## Listings -/

lemma IsNested.withCursor (h : s.IsNested) (henter : isEnterable s.frame.path) {cursor : Cursor}
    (hnames : ∀ name ∈ cursor.unread, IsName name) :
    ({ s with frame := { s.frame with cursor := some cursor } } : Scan).IsNested := by
  obtain ⟨hsound, hstands, hstack⟩ := h
  refine ⟨⟨hsound.named.congr rfl rfl, fun c hc => ?_, fun _ => henter, hsound.pending,
    hsound.component⟩, hstands, hstack⟩
  cases hc
  exact hnames

/-- What is read from a listing, and that it is closed, changes nothing about where frames stand. -/
lemma IsNested.withUnread (h : s.IsNested) {names : List String}
    (hnames : ∀ name ∈ names, IsName name) :
    ({ s with frame := s.frame.withUnread names } : Scan).IsNested := by
  obtain ⟨hsound, hstands, hstack⟩ := h
  refine ⟨⟨hsound.named.congr rfl rfl, fun c hc => ?_, fun hc => ?_, hsound.pending,
    hsound.component⟩, hstands, hstack⟩
  · obtain ⟨_, _, rfl⟩ := Option.map_eq_some_iff.mp hc
    exact hnames
  · exact hsound.opened (by rw [← s.frame.isSome_withUnread names]; exact hc)

lemma IsNested.closeCursor (h : s.IsNested) : s.closeCursor.IsNested := by
  obtain ⟨hsound, hstands, hstack⟩ := h
  exact ⟨⟨hsound.named.congr rfl rfl, (fun _ hc => by cases hc), (fun hc => by cases hc),
    hsound.pending, hsound.component⟩, hstands, hstack⟩

/-- A name is taken in the directory that stays open behind the frame. -/
lemma IsNested.read (h : s.IsNested) {c : Cursor} (hcursor : s.frame.cursor = some c)
    {name : String} {rest : List String} (hunread : name :: rest <:+ c.unread) (descent : Bool) :
    ({ s.save (s.frame.withUnread rest) with frame :=
      { s.frame.successor with
        remaining := .literal name descent :: s.frame.remaining
        phase := .component } } : Scan).IsNested := by
  have hnames := h.1.unread c hcursor
  have hsome : s.frame.cursor.isSome := by rw [hcursor]; rfl
  have hwaits := h.withUnread fun name hname =>
    hnames name (hunread.subset (List.mem_cons_of_mem _ hname))
  have hhead : (openPaths (s.frame.withUnread rest :: s.stack)).head? = some s.frame.path :=
    head?_openPaths (by rw [isSome_withUnread]; exact hsome)
  refine Nested.component hwaits rfl ⟨rfl, rfl⟩ ⟨fun name' descent hname => ?_, h.1.named.queued⟩
    (fun _ => h.1.opened hsome) (Or.inr ⟨hhead, name, _, _, rfl⟩)
  rcases List.mem_cons.mp hname with hname | hname
  · cases hname
    exact hnames name (hunread.subset List.mem_cons_self)
  · exact h.1.named.remaining name' descent hname

/-! ## Level by level -/

lemma IsNested.below_of_ellipsis (h : s.IsNested) (hphase : s.frame.phase = .ellipsis) :
    LiesBelow s.stack s.frame.path ∧ ∀ d ∈ s.frame.pending.getD [], LiesBelow s.stack d.1 := by
  have hstands := h.2.1
  rw [StandsOn, hphase] at hstands
  exact hstands

/-- The directory that has waited longest is listed next. -/
lemma IsNested.turnedTo (h : s.IsNested) (hphase : s.frame.phase = .ellipsis) {path : String}
    {visited : Visited} {queue : List (String × Visited)}
    (hpending : s.frame.pending = some ((path, visited) :: queue)) :
    ({ s with frame := { s.frame with
      path := path, visited := visited, pending := some queue } } : Scan).IsNested := by
  have hbelow := (h.below_of_ellipsis hphase).2
  obtain ⟨hsound, _, hstack⟩ := h
  have henter := hsound.pending
  rw [hpending, Option.getD_some, List.forall_mem_cons] at hbelow henter
  refine hstack.ellipsis hphase ⟨hsound.named.congr rfl rfl, hsound.unread,
    fun _ => henter.1, henter.2, fun hc => ?_⟩ hbelow.1 hbelow.2
  rw [hphase] at hc
  cases hc

/-- What is found in the directory that is open may wait with what waits already. -/
lemma IsNested.withFound (h : s.IsNested) (hphase : s.frame.phase = .ellipsis)
    {queue : List (String × Visited)} (hpending : s.frame.pending = some queue)
    {names : List String}
    (hnames : ∀ name ∈ names, IsName name) {p : String × Visited} (hp : Below s.frame.path p.1)
    (es : List Event) :
    (s.midway names (some (queue ++ if isEnterable p.1 then [p] else [])) es).IsNested := by
  obtain ⟨hread, _, hstack⟩ := h.withUnread hnames
  obtain ⟨hbelow, hqueue⟩ := h.below_of_ellipsis hphase
  have henter := h.1.pending
  rw [hpending, Option.getD_some] at hqueue henter
  have hall : ∀ d ∈ queue ++ if isEnterable p.1 then [p] else [],
      isEnterable d.1 ∧ LiesBelow s.stack d.1 := by
    intro d hd
    rcases List.mem_append.mp hd with hd | hd
    · exact ⟨henter d hd, hqueue d hd⟩
    · obtain ⟨rfl, hdirectory⟩ := eq_of_mem_waiting hd
      exact ⟨hdirectory, hbelow.trans hp⟩
  exact hstack.ellipsis hphase ⟨hread.named.congr rfl rfl, hread.unread, hread.opened,
    fun d hd => (hall d hd).1, hread.component⟩ hbelow fun d hd => (hall d hd).2

lemma IsNested.found (h : s.IsNested) (hphase : s.frame.phase = .ellipsis) {c : Cursor}
    (hcursor : s.frame.cursor = some c) {queue : List (String × Visited)}
    (hpending : s.frame.pending = some queue) {name : String} {rest : List String}
    (hunread : name :: rest <:+ c.unread) {p : String × Visited}
    (hextend : (s.trip r plan).extend s.frame.path s.frame.visited name true = some p)
    (hdeep : needsDirectory s.frame.remaining → isEnterable p.1) (es : List Event) :
    ((s.midway rest (some (queue ++ if isEnterable p.1 then [p] else [])) es).leaveLevel
      p.1 p.2).IsNested := by
  have hnames := h.1.unread c hcursor
  have hsome : s.frame.cursor.isSome := by rw [hcursor]; rfl
  have hname : IsName name := hnames name (hunread.subset List.mem_cons_self)
  have hdeeper : Below s.frame.path p.1 := below_of_extend (h.1.opened hsome) hname hextend
  have hwaits := h.withFound hphase hpending (fun name hname =>
    hnames name (hunread.subset (List.mem_cons_of_mem _ hname))) hdeeper es
  refine Nested.component hwaits rfl ⟨rfl, rfl⟩ (h.1.named.congr rfl rfl) hdeep (Or.inl ?_)
  exact liesBelow_of_isSome (by rw [midway, isSome_withUnread]; exact hsome) hdeeper

/-! ## Steps -/

/-- The specification that the current frame belongs to is of names. -/
lemma isNamed_spec (hframe : s.frame.IsNamed) (hbase : ∀ spec, s.base = some spec → spec.IsNamed) :
    s.spec.IsNamed := by
  rw [spec, specOf.eq_def]
  cases hroot : s.frame.root with
  | queued spec => exact hframe.queued spec hroot
  | construction =>
    cases hs : s.base with
    | none => exact fun _ _ h => by cases h
    | some spec => exact hbase spec hs

/-- A specification is taken up when nothing is open behind it. -/
lemma IsNested.begin (h : s.IsNested) (hbare : s.frame.Bare) (hphase : s.frame.phase = .initial)
    (hbase : ∀ spec, s.base = some spec → spec.IsNamed) : s.begin.1.IsNested := by
  obtain ⟨hsound, hstands, hstack⟩ := h
  rw [StandsOn, hphase] at hstands
  refine Nested.component hstack rfl hbare ⟨isNamed_spec hsound.named hbase, hsound.named.queued⟩
    (fun _ => s.spec.isEnterable_rootPath) (Or.inl fun b hb => ?_)
  have hnone : (openPaths s.stack).head? = none := by
    rw [show openPaths s.stack = [] from hstands]; rfl
  cases hnone.symm.trans hb

/-- **A move keeps frames inside one another.** -/
lemma Move.isNested (hmove : Move r plan s s') (hr : r.ListsNames)
    (hbase : ∀ spec, s.base = some spec → spec.IsNamed) (h : s.IsNested) : s'.IsNested := by
  cases hmove with
  | noted => exact h.congr rfl rfl
  | refused hopen =>
    obtain ⟨_, _, _, rfl⟩ := scan_of_openCursor hopen
    exact h.congr rfl rfl
  | marked =>
    exact ⟨⟨h.1.named.congr rfl rfl, h.1.unread, h.1.opened, h.1.pending, h.1.component⟩, h.2⟩
  | dropped => exact isNested_pop h.2.2
  | begun hphase hbare => exact h.begin hbare hphase hbase
  | descended hphase hbare hremaining hextend hdeep =>
    exact h.descended hphase hbare hremaining hextend hdeep
  | globbed hphase hbare hremaining hopen =>
    exact (h.isDeeper hphase hbare hremaining fun _ _ hc => by cases hc).globbed
      hr hphase hremaining hopen
  | passed hphase hbare hremaining hname =>
    exact (h.isDeeper hphase hbare hremaining hname).passed hphase hremaining
  | forked hphase hbare hremaining hwaits =>
    exact (h.isDeeper hphase hbare hremaining fun _ _ hc => by cases hc).forked
      hphase hremaining hwaits
  | expanded hbare hphase henter =>
    rcases hphase with ⟨hphase, rfl⟩ | ⟨hphase, hremaining⟩
    · have hdeeper : s.IsDeeper := ⟨hbare, h.1, (h.below_of_ellipsis hphase).1, h.2.2⟩
      exact hdeeper.expanded (fun _ hc => hc) henter
    · refine (h.isDeeper hphase hbare hremaining fun _ _ hc => by cases hc).expanded
        (fun c hc => ?_) henter
      rw [hremaining]
      exact List.mem_cons_of_mem _ hc
  | read descent hphase hcursor hunread => exact h.read hcursor hunread descent
  | closed => exact h.closeCursor
  | turnedTo hphase hcursor hpending => exact h.turnedTo hphase hpending
  | listed hphase hcursor hpending henter hopen =>
    have hnames := names_of_openCursor hr hopen
    obtain ⟨_, _, _, rfl⟩ := scan_of_openCursor hopen
    exact (h.congr rfl rfl).withCursor henter hnames
  | found es hphase hcursor hpending hunread hextend hdeep =>
    exact h.found hphase hcursor hpending hunread hextend hdeep es

/-- **A step keeps frames inside one another**, whatever the filesystem answers and wherever it
stops. -/
theorem IsNested.turn (h : s.IsNested) (hr : r.ListsNames) (hs : s.Coherent plan)
    (hbase : ∀ spec, s.base = some spec → spec.IsNamed) : (s.turn r plan).1.IsNested := by
  refine (hs.turn_preserves (p := fun s => (∀ spec, s.base = some spec → spec.IsNamed) ∧ s.IsNested)
    (fun s s' _ hmove h => ⟨?_, hmove.isNested hr h.1 h.2⟩) ⟨hbase, h⟩).2
  rw [show s'.base = s.base from congrArg Prod.fst hmove.core]
  exact h.1

/-! ## Runs -/

/-- The directories that a scan has open, that of the frame at the bottom first. -/
def openPaths (s : Scan) : List String := (Frame.openPaths (s.frame :: s.stack)).reverse

/-- **What is known of the directories that a scan has open.** -/
structure OpensInside (s : Scan) : Prop where
  /-- Each is inside all that stand before it. -/
  inside : s.openPaths.Pairwise fun p q => p.toList <+: q.toList ∧ p ≠ q
  /-- There is no handle without a directory that is open. -/
  handles_le : s.handles.length ≤ s.openPaths.length
  /-- There are no more of them than the last is deep, and one. -/
  length_le : ∀ top ∈ s.openPaths.getLast?, s.openPaths.length ≤ 1 + (Tree.placeOf top).length

/-- A scan in order whose frames are inside one another, and that can be started over with names. -/
structure IsInDepth (plan : Plan) (s : Scan) : Prop where
  inOrder : s.InOrder plan
  nested : s.IsNested
  base : ∀ spec, s.base = some spec → spec.IsNamed

lemma length_held (s : Scan) : s.held.length = s.openPaths.length := by
  rw [openPaths, List.length_reverse, Frame.openPaths, List.length_map,
    ← List.countP_eq_length_filter, held, List.length_filterMap_eq_countP]
  exact List.countP_congr fun f _ => by rw [Option.isSome_map]

/-- **Frames inside one another have directories open that are inside one another.** -/
theorem IsInDepth.opensInside (h : s.IsInDepth plan) : s.OpensInside := by
  have hcoherent : ∀ f ∈ s.frame :: s.stack, f.Coherent plan :=
    List.forall_mem_cons.mpr ⟨h.inOrder.coherent.frame,
      fun f hf => (h.inOrder.coherent.stack f hf).1⟩
  have hpairwise := h.nested.pairwise_openPaths hcoherent
  refine ⟨?_, ?_, fun top htop => ?_⟩
  · rw [openPaths, List.pairwise_reverse]
    refine hpairwise.imp fun hbelow => ⟨hbelow.isPrefix, fun heq => ?_⟩
    exact Nat.ne_of_lt hbelow.deeper (congrArg (fun p => (Tree.placeOf p).length) heq)
  · cases heager : plan.sorting.isEager with
    | true =>
      rw [h.inOrder.accounted.eager heager]
      exact Nat.zero_le _
    | false =>
      have hlength := (h.inOrder.accounted.lazy heager).length_eq
      rw [length_held, List.length_map] at hlength
      exact hlength.ge
  · rw [openPaths, List.getLast?_reverse] at htop
    obtain ⟨rest, hrest⟩ := List.head?_eq_some_iff.mp htop
    rw [openPaths, List.length_reverse, hrest]
    rw [hrest] at hpairwise
    exact length_le_of_pairwise hpairwise

/-- A number of steps. -/
def afterTurns (r : Reader) (plan : Plan) (k : ℕ) (s : Scan) : Scan :=
  (fun s => (s.turn r plan).1)^[k] s

lemma IsInDepth.turn (h : s.IsInDepth plan) (hr : r.ListsNames) :
    (s.turn r plan).1.IsInDepth plan :=
  ⟨h.inOrder.turn, h.nested.turn hr h.inOrder.coherent h.base, by
    rw [show (s.turn r plan).1.base = s.base from congrArg Prod.fst h.inOrder.coherent.core_turn]
    exact h.base⟩

/-- **Any number of steps keep frames inside one another.** -/
theorem IsInDepth.afterTurns (h : s.IsInDepth plan) (hr : r.ListsNames) (k : ℕ) :
    (s.afterTurns r plan k).IsInDepth plan :=
  Function.Iterate.rec (IsInDepth plan) h (fun _ hs => IsInDepth.turn hs hr) k

lemma IsInDepth.start (h : s.InOrder plan) {spec : PathSpec} (hspec : spec.IsNamed) :
    (s.start spec).IsInDepth plan :=
  ⟨h.start spec, nested_initial (fun _ hroot => by cases hroot), fun spec' hbase => by
    cases hbase
    exact hspec⟩

lemma IsInDepth.close (h : s.IsInDepth plan) : s.close.IsInDepth plan :=
  ⟨h.inOrder.close, nested_finished trivial, h.base⟩

lemma IsInDepth.append (h : s.IsInDepth plan) {spec : PathSpec} (hspec : spec.IsNamed) :
    (s.append spec).IsInDepth plan := by
  have hqueued : ∀ spec', Root.queued spec = .queued spec' → spec'.IsNamed := by
    intro spec' heq
    cases heq
    exact hspec
  refine ⟨h.inOrder.append spec, ?_, by rw [base_append]; exact h.base⟩
  unfold Scan.append
  simp only
  split
  · exact isNested_pop (h.nested.2.2.append_initial hqueued)
  · exact Nested.append_initial h.nested hqueued

lemma IsInDepth.setMatcher (h : s.IsInDepth plan) (matcher : Pattern) :
    (s.setMatcher matcher).IsInDepth plan := by
  refine ⟨h.inOrder.setMatcher matcher, h.nested, fun spec hbase => ?_⟩
  obtain ⟨spec', hspec', rfl⟩ := Option.map_eq_some_iff.mp hbase
  exact h.base spec' hspec'

end Scan

/-- A request that interrupts nothing: no path is served before what is going on.  No slash is
hidden in a path either. -/
def Request.InterruptsNothing : Request → Prop
  | .call (.prepend _ _ _) => False
  | q => q.IsSlashFree

namespace Expansion

variable {r : Reader} {e : Expansion} {o : Options}

/-- A request that interrupts nothing keeps frames inside one another. -/
lemma isInDepth_request (h : e.scan.IsInDepth e.plan) (hr : r.ListsNames) {q : Request}
    (hq : q.InterruptsNothing) : (e.request r q).scan.IsInDepth e.plan := by
  have hturn : ∀ s : Scan, s.IsInDepth e.plan → (s.turn r e.plan).1.IsInDepth e.plan :=
    fun s hs => hs.turn hr
  cases q with
  | call c =>
    cases c with
    | next => exact Scan.advance_preserves hturn h
    | append path absolute follow =>
      rw [Expansion.request, call, Expansion.append]
      cases hcompile : e.compileRoot path absolute follow with
      | error problem => exact h
      | ok spec => exact h.append (isNamed_compileRoot hq hcompile)
    | prepend path absolute follow => exact hq.elim
    | close => exact h.close
  | all => exact Scan.drain_preserves hturn h
  | setMatch pattern =>
    rw [Expansion.request, setMatch]
    cases pattern.toPatternInput.compile e.plan.ignoreCase with
    | error problem => exact h
    | ok matcher => exact h.setMatcher matcher
  | reset =>
    obtain ⟨s, spec, hs, hbase, hreset⟩ := InOrder.reset_eq h.inOrder
    rw [Expansion.request, hreset]
    exact Scan.IsInDepth.start hs (h.base spec hbase)

lemma isInDepth_afterRequests (h : e.scan.IsInDepth e.plan) {requests : List (Reader × Request)}
    (hrequests : ∀ q ∈ requests, q.1.ListsNames ∧ q.2.InterruptsNothing) :
    (e.afterRequests requests).scan.IsInDepth e.plan := by
  induction requests generalizing e with
  | nil => exact h
  | cons q requests ih =>
    obtain ⟨⟨hr, hq⟩, hrest⟩ := List.forall_mem_cons.mp hrequests
    have hplan : (e.request q.1 q.2).plan = e.plan := (InOrder.request h.inOrder q.1 q.2).2
    have hnext := isInDepth_request h hr hq
    rw [← hplan] at hnext ⊢
    exact ih hnext hrest

/-- **Open directories are bounded by depth.**  Unless a path is served first, the directories that
an expansion has open lie inside one another, that of the current frame innermost, wherever it is:
after any requests, each with the filesystem as it stands then, and any number of steps into the
next.  So it holds no more handles than the last of them is deep, and one. -/
theorem handles_le_depth (he : ofOptions o = .ok e) (hpath : o.path.toPathInput.IsSlashFree)
    {requests : List (Reader × Request)}
    (hrequests : ∀ q ∈ requests, q.1.ListsNames ∧ q.2.InterruptsNothing)
    (hr : r.ListsNames) (k : ℕ) :
    ((e.afterRequests requests).scan.afterTurns r e.plan k).OpensInside := by
  obtain ⟨_, _, spec, hcompile, hscan⟩ := ofOptions_compiled he
  have hspec : spec.IsNamed := fun _ _ => PathSpec.isName_of_compile hpath hcompile
  have hinitial : e.scan.IsInDepth e.plan := by
    refine ⟨inOrder_of_ofOptions he, ?_, fun spec' hbase => ?_⟩
    · rw [hscan]
      exact Frame.nested_initial fun _ hroot => by cases hroot
    · rw [hscan] at hbase
      cases hbase
      exact hspec
  exact ((isInDepth_afterRequests hinitial hrequests).afterTurns hr k).opensInside

lemma listsNames_twoEach : twoEach.ListsNames := by
  intro path l hl name hname
  cases hl
  rcases List.mem_pair.mp hname with rfl | rfl <;> exact ⟨by decide, by decide⟩

/-- Where every directory has two in it, a search on all levels goes down the first of them; a path
that is queued in between waits behind it. -/
theorem handles_le_depth_branching :
    ∃ (o : Options) (e : Expansion) (requests : List (Reader × Request)),
      o = { path := .datum (.text "a///*") } ∧ ofOptions o = .ok e ∧
      o.path.toPathInput.IsSlashFree ∧
      requests = [(twoEach, .call .next), (twoEach, .call .next), (twoEach, .call .next),
        (twoEach, .call (.append (.datum (.text "b/*")) .nothing .nothing)),
        (twoEach, .call .next), (twoEach, .call .next)] ∧
      (∀ q ∈ requests, q.1.ListsNames ∧ q.2.InterruptsNothing) ∧ twoEach.ListsNames ∧
      let s := (e.afterRequests requests).scan.afterTurns twoEach e.plan 2
      s.openPaths = ["a/", "a/a/", "a/a/a/"] ∧ s.handles = [4, 3, 1] ∧ s.OpensInside := by
  set o : Options := { path := .datum (.text "a///*") } with ho
  set requests : List (Reader × Request) :=
    [(twoEach, .call .next), (twoEach, .call .next), (twoEach, .call .next),
      (twoEach, .call (.append (.datum (.text "b/*")) .nothing .nothing)),
      (twoEach, .call .next), (twoEach, .call .next)] with hrequests
  have hopen : (ofOptions o).toOption.map (fun e =>
      let s := (e.afterRequests requests).scan.afterTurns twoEach e.plan 2
      (s.openPaths, s.handles)) = some (["a/", "a/a/", "a/a/a/"], [4, 3, 1]) := by
    decide +kernel
  have hpath : o.path.toPathInput.IsSlashFree := trivial
  have hquiet : ∀ q ∈ requests, q.1.ListsNames ∧ q.2.InterruptsNothing := by
    simp only [hrequests, List.forall_mem_cons]
    exact ⟨⟨listsNames_twoEach, trivial⟩, ⟨listsNames_twoEach, trivial⟩,
      ⟨listsNames_twoEach, trivial⟩,
      ⟨listsNames_twoEach, trivial⟩, ⟨listsNames_twoEach, trivial⟩, ⟨listsNames_twoEach, trivial⟩,
      List.forall_mem_nil _⟩
  cases he : ofOptions o with
  | error problem =>
    rw [he] at hopen
    cases hopen
  | ok e =>
    rw [he] at hopen
    obtain ⟨hpaths, hhandles⟩ := Prod.mk.inj (Option.some.inj hopen)
    exact ⟨o, e, requests, rfl, he, hpath, rfl, hquiet, listsNames_twoEach, hpaths, hhandles,
      handles_le_depth he hpath hquiet listsNames_twoEach 2⟩

end Expansion

end PathExpansion
