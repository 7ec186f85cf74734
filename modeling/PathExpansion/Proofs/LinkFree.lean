import PathExpansion.Proofs.Entered
import PathExpansion.Proofs.Restarts
import PathExpansion.Proofs.Unrolling

/-!
# Expansions of a tree without links

In a tree without links, following links is a matter of what is remembered and of nothing else: step
by step a scan does what it would do if it followed none.  So whatever is asked of two expansions
that differ in this option only, a caller sees the same: the same results in the same order, the
same directories asked for in the same order, the same faults, and the same trace.  The paths must
not have a part `..`, which takes a descent back to what it has entered.

* `Scan.IsBeside` — two scans that are the same without following links; **`Scan.IsBeside.turn`**: a
  step of the one comes to what a step of the other does, and so do `Scan.IsBeside.advance` and
  `Scan.IsBeside.drain`.
* `PathSpec.PathInput.IsStraight`, `Request.IsStraight` — no path leads up.
* `Scan.isKept_beside` — two scans that are so stay so, whatever is asked of both.
* **`Expansion.views_following`** — they look the same.
-/

namespace PathExpansion

/-- **Two paths that are the same without following links**, neither of which leads up. -/
structure PathSpec.IsBeside (spec spec' : PathSpec) : Prop where
  straight : spec.IsStraight
  straight' : spec'.IsStraight
  unfollowing : spec'.unfollowing = spec.unfollowing

namespace Scan

variable {t : Tree} {d : Disturbance} {plan : Plan} {s s' : Scan} {spec spec' : PathSpec}

/-! ## Any number of steps -/

lemma unfollowing_frames (s : Scan) :
    s.unfollowing.frame :: s.unfollowing.stack = (s.frame :: s.stack).map (·.unfollowing) := rfl

lemma unfollowing_patience (s : Scan) (r : Reader) : s.unfollowing.patience r = s.patience r := by
  have hweight : ∀ f : Frame, s.unfollowing.frameWeight r f.unfollowing = s.frameWeight r f := by
    intro f
    have hspec : s.unfollowing.specOf f.unfollowing.root = (s.specOf f.root).unfollowing :=
      s.unfollowing_specOf f.root
    have hwaiting : (f.unfollowing.pending.getD []).length = (f.pending.getD []).length := by
      rw [Frame.unfollowing]
      cases f.pending <;> simp
    rw [frameWeight, frameWeight, hspec, hwaiting]
    rfl
  rw [patience, patience, unfollowing_frames, List.foldl_map]
  simp only [hweight]

lemma unfollowing_isFinished (s : Scan) : s.unfollowing.isFinished = s.isFinished := by
  have hstack : s.unfollowing.stack = s.stack.map (·.unfollowing) := rfl
  rw [isFinished, isFinished, hstack, unfollowing_phase, List.isEmpty_map]

/-- **Two scans that are the same without following links**, and go straight down. -/
structure IsBeside (t : Tree) (plan : Plan) (s s' : Scan) : Prop where
  coherent : s.Coherent plan
  coherent' : s'.Coherent plan
  straight : s.IsStraight t
  straight' : s'.IsStraight t
  unfollowing : s'.unfollowing = s.unfollowing

lemma IsBeside.patience (h : IsBeside t plan s s') (r : Reader) : s'.patience r = s.patience r := by
  rw [← unfollowing_patience, h.unfollowing, unfollowing_patience]

/-- **A step of the one comes to what a step of the other does.** -/
lemma IsBeside.turn (h : IsBeside t plan s s') (ht : t.IsPlain) :
    IsBeside t plan (s.turn (t.reader d) plan).1 (s'.turn (t.reader d) plan).1 ∧
      (s'.turn (t.reader d) plan).2 = (s.turn (t.reader d) plan).2 := by
  have hleft := h.straight.turn ht h.coherent (d := d)
  have hright := h.straight'.turn ht h.coherent' (d := d)
  rw [h.unfollowing] at hright
  obtain ⟨hscan, hsignal⟩ := Prod.mk.inj (hright.eq.symm.trans hleft.eq)
  exact ⟨⟨h.coherent.turn, h.coherent'.turn, hleft.straight, hright.straight, hscan⟩, hsignal⟩

lemma IsBeside.advance (h : IsBeside t plan s s') (ht : t.IsPlain) (d : Disturbance) :
    IsBeside t plan (s.advance (t.reader d) plan).1 (s'.advance (t.reader d) plan).1 ∧
      (s'.advance (t.reader d) plan).2 = (s.advance (t.reader d) plan).2 :=
  advance_related (fun _ _ hs => hs.turn ht) h (h.patience _)

lemma IsBeside.drain (h : IsBeside t plan s s') (ht : t.IsPlain) (d : Disturbance) :
    IsBeside t plan (s.drain (t.reader d) plan).1 (s'.drain (t.reader d) plan).1 ∧
      (s'.drain (t.reader d) plan).2 = (s.drain (t.reader d) plan).2 :=
  drain_related (fun _ _ hs => hs.turn ht) h (h.patience _)

/-! ## Roots -/

lemma unfollowing_close (s : Scan) : s.unfollowing.close = s.close.unfollowing := by
  have hheld : (s.unfollowing.frame :: s.unfollowing.stack).filterMap Frame.handle?
      = (s.frame :: s.stack).filterMap Frame.handle? := by
    rw [unfollowing_frames, List.filterMap_map]
    rfl
  rw [close, close, hheld]
  rfl

lemma unfollowing_start (s : Scan) (spec : PathSpec) :
    s.unfollowing.start spec.unfollowing = (s.start spec).unfollowing := by
  rw [start, start, unfollowing_close]
  rfl

lemma unfollowing_append (s : Scan) (spec : PathSpec) :
    s.unfollowing.append spec.unfollowing = (s.append spec).unfollowing := by
  have hqueued : { s.unfollowing with
        stack := s.unfollowing.stack ++ [.initial (.queued spec.unfollowing)] }
      = ({ s with stack := s.stack ++ [.initial (.queued spec)] } : Scan).unfollowing := by
    rw [unfollowing, unfollowing, List.map_append]
    rfl
  rw [append, append, hqueued, unfollowing_phase, unfollowing_pop]
  split_ifs <;> rfl

lemma unfollowing_prepend (s : Scan) (spec : PathSpec) :
    s.unfollowing.prepend spec.unfollowing = (s.prepend spec).unfollowing := by
  rw [prepend, prepend, unfollowing_phase]
  split_ifs <;> rfl

lemma unfollowing_setMatcher (s : Scan) (matcher : Pattern) :
    s.unfollowing.setMatcher matcher = (s.setMatcher matcher).unfollowing := by
  rw [setMatcher, setMatcher, unfollowing]
  cases s.base <;> rfl

lemma isStraight_initial (t : Tree) (hspec : spec.IsStraight) :
    (Frame.initial (.queued spec)).IsStraight t := by
  refine Frame.isStraight_of_empty t _ fun spec' h => ?_
  cases h
  exact hspec

lemma isStraight_start (t : Tree) (s : Scan) (hspec : spec.IsStraight) :
    (s.start spec).IsStraight t := by
  refine ⟨fun spec' h => ?_, Frame.isStraight_construction t _, List.forall_mem_nil _⟩
  cases h
  exact hspec

lemma IsStraight.append (h : s.IsStraight t) (hspec : spec.IsStraight) :
    (s.append spec).IsStraight t := by
  have hstack : ∀ f ∈ s.stack ++ [.initial (.queued spec)], f.IsStraight t :=
    List.forall_mem_append.mpr ⟨h.stack, List.forall_mem_singleton.mpr (isStraight_initial t hspec)⟩
  rw [Scan.append]
  split_ifs
  · exact isStraight_pop h.base hstack
  · exact ⟨h.base, h.frame, hstack⟩

lemma IsStraight.prepend (h : s.IsStraight t) (hspec : spec.IsStraight) :
    (s.prepend spec).IsStraight t := by
  rw [Scan.prepend]
  split_ifs
  · exact ⟨h.base, isStraight_initial t hspec, h.stack⟩
  · exact ⟨h.base, isStraight_initial t hspec, List.forall_mem_cons.mpr ⟨h.frame, h.stack⟩⟩

lemma IsStraight.setMatcher (h : s.IsStraight t) (matcher : Pattern) :
    (s.setMatcher matcher).IsStraight t := by
  refine ⟨fun spec hbase => ?_, h.frame, h.stack⟩
  obtain ⟨spec', hspec', rfl⟩ := Option.map_eq_some_iff.mp hbase
  exact h.base spec' hspec'

section

variable (h : IsBeside t plan s s')

include h

lemma IsBeside.close : IsBeside t plan s.close s'.close where
  coherent := coherent_close s
  coherent' := coherent_close s'
  straight := ⟨h.straight.base, Frame.isStraight_construction t _, List.forall_mem_nil _⟩
  straight' := ⟨h.straight'.base, Frame.isStraight_construction t _, List.forall_mem_nil _⟩
  unfollowing := by rw [← unfollowing_close, h.unfollowing, unfollowing_close]

lemma IsBeside.start (hspec : spec.IsBeside spec') :
    IsBeside t plan (s.start spec) (s'.start spec') where
  coherent := coherent_start s spec
  coherent' := coherent_start s' spec'
  straight := isStraight_start t s hspec.straight
  straight' := isStraight_start t s' hspec.straight'
  unfollowing := by
    rw [← unfollowing_start, h.unfollowing, hspec.unfollowing, unfollowing_start]

lemma IsBeside.append (hspec : spec.IsBeside spec') :
    IsBeside t plan (s.append spec) (s'.append spec') where
  coherent := h.coherent.append spec
  coherent' := h.coherent'.append spec'
  straight := h.straight.append hspec.straight
  straight' := h.straight'.append hspec.straight'
  unfollowing := by
    rw [← unfollowing_append, h.unfollowing, hspec.unfollowing, unfollowing_append]

lemma IsBeside.prepend (hspec : spec.IsBeside spec') :
    IsBeside t plan (s.prepend spec) (s'.prepend spec') where
  coherent := h.coherent.prepend spec
  coherent' := h.coherent'.prepend spec'
  straight := h.straight.prepend hspec.straight
  straight' := h.straight'.prepend hspec.straight'
  unfollowing := by
    rw [← unfollowing_prepend, h.unfollowing, hspec.unfollowing, unfollowing_prepend]

lemma IsBeside.setMatcher (matcher : Pattern) :
    IsBeside t plan (s.setMatcher matcher) (s'.setMatcher matcher) where
  coherent := h.coherent.setMatcher matcher
  coherent' := h.coherent'.setMatcher matcher
  straight := h.straight.setMatcher matcher
  straight' := h.straight'.setMatcher matcher
  unfollowing := by rw [← unfollowing_setMatcher, h.unfollowing, unfollowing_setMatcher]

end

end Scan

/-! ## Paths that do not lead up -/

namespace PathSpec

/-- No part of a path leads up, and no slash is hidden in one. -/
structure PathInput.IsStraight (path : PathInput) : Prop where
  slashFree : path.IsSlashFree
  descends : ∀ absolute parts rooted, path.split absolute = .ok (parts, rooted) → ".." ∉ parts

/-- A text is split the same way whatever is said about where it starts. -/
lemma PathInput.isStraight_text {path : String} (h : ".." ∉ (splitText path).1) :
    (PathInput.text path).IsStraight := by
  refine ⟨trivial, fun absolute parts rooted hsplit => ?_⟩
  have hparts : (splitText path).1 = parts := congrArg Prod.fst (Except.ok.inj hsplit)
  exact hparts ▸ h

variable {ignoreCase follow : Bool} {path : PathInput} {absolute : Option Bool}
  {matching : Option PatternInput} {spec : PathSpec}

lemma isStraight_of_compile (hpath : path.IsStraight)
    (h : compile ignoreCase path absolute matching follow = .ok spec) : spec.IsStraight := by
  obtain ⟨parts, hsplit, hcomponents, -⟩ := exists_split_of_compile h
  intro c hc
  obtain ⟨part, hpart, hcompile⟩ := hcomponents c hc
  cases c with
  | literal name descent =>
    have hname : IsName name := isName_of_compile hpath.slashFree h hc
    have hflat : descent = false := (Component.text_of_compile hcompile).2
    obtain ⟨-, rfl⟩ := Component.compile_eq_literal hcompile
    refine ⟨hname, fun hup => hpath.descends _ _ _ hsplit (hup ▸ hpart), fun hdescent => ?_⟩
    rw [hflat] at hdescent
    cases hdescent
  | wildcard w => trivial
  | ellipsis => trivial

/-- A path is compiled to the same, links followed or not. -/
lemma compile_follow (ignoreCase : Bool) (path : PathInput) (absolute : Option Bool)
    (matching : Option PatternInput) (follow follow' : Bool) :
    compile ignoreCase path absolute matching follow'
      = (compile ignoreCase path absolute matching follow).map fun spec =>
          { spec with follow := follow' } := by
  rw [compile, compile]
  cases path.split absolute with
  | error problem => rfl
  | ok split =>
    simp only [Except.mapError, bind, Except.bind]
    cases split.1.mapM (Component.compile ignoreCase) with
    | error problem => rfl
    | ok components =>
      simp only
      cases matching with
      | none =>
        simp only
        cases compilePattern ignoreCase (wholePathSource components split.2) <;> rfl
      | some given =>
        simp only
        cases given.compile ignoreCase <;> rfl

end PathSpec

/-- The path of the options is compiled to the same, links followed or not. -/
lemma Options.pathSpec_follow (o : Options) (ignoreCase : Bool) (follow : Setting) :
    { o with follow := follow }.pathSpec ignoreCase
      = (o.pathSpec ignoreCase).map fun spec => { spec with follow := follow.truthy } :=
  PathSpec.compile_follow _ _ _ _ _ _

/-- A request that names no path that leads up. -/
def Request.IsStraight : Request → Prop
  | .call (.append path _ _) | .call (.prepend path _ _) => path.toPathInput.IsStraight
  | _ => True

/-! ## Two expansions -/

/-- **Two scans that are the same without following links stay so**, whatever is asked of both. -/
lemma Scan.isKept_beside {t : Tree} (ht : t.IsPlain) (d : Disturbance) (plan : Plan) :
    IsKept (t.reader d) plan PathSpec.IsBeside (IsBeside t plan) where
  advance s s' h := h.advance ht d
  drain s s' h := h.drain ht d
  close s s' h := h.close
  start s s' spec spec' h hspec := h.start hspec
  append s s' spec spec' h hspec := h.append hspec
  prepend s s' spec spec' h hspec := h.prepend hspec
  setMatcher s s' matcher h := h.setMatcher matcher
  renewed s s' h := ⟨h.coherent.congr rfl rfl, h.coherent'.congr rfl rfl,
    ⟨h.straight.base, h.straight.frame, h.straight.stack⟩,
    ⟨h.straight'.base, h.straight'.frame, h.straight'.stack⟩,
    congrArg (fun s : Scan => { s with policy := s.policy.reset }) h.unfollowing⟩
  quiet s s' h := ⟨h.coherent.congr rfl rfl, h.coherent'.congr rfl rfl,
    ⟨h.straight.base, h.straight.frame, h.straight.stack⟩,
    ⟨h.straight'.base, h.straight'.frame, h.straight'.stack⟩,
    congrArg (fun s : Scan => s.takeEvents.2) h.unfollowing⟩
  base s s' h := by
    have hbase : s'.base.map (·.unfollowing) = s.base.map (·.unfollowing) :=
      congrArg Scan.base h.unfollowing
    cases hspec : s.base with
    | none =>
      rw [hspec] at hbase
      rw [Option.map_eq_none_iff.mp hbase]
      exact .none
    | some spec =>
      rw [hspec] at hbase
      obtain ⟨spec', hspec', hunfollowing⟩ := Option.map_eq_some_iff.mp hbase
      rw [hspec']
      exact .some ⟨h.straight.base spec hspec, h.straight'.base spec' hspec', hunfollowing⟩
  shown s s' h := by
    have hshown : ∀ event : Event, Expansion.shown event.unfollowing = Expansion.shown event := by
      intro event
      cases event <;> rfl
    have hevents := congrArg (fun s : Scan => s.events.map Expansion.shown) h.unfollowing
    simpa [unfollowing, Function.comp_def, hshown] using hevents
  policy s s' h := by
    have hpolicy := congrArg Scan.policy h.unfollowing
    exact hpolicy
  isFinished s s' h := by
    rw [← unfollowing_isFinished, h.unfollowing, unfollowing_isFinished]

namespace Expansion

variable {t : Tree} {e e' : Expansion} {o : Options} {q : Request}

/-- A further path is compiled by both or by neither, and to the same but for links. -/
lemma addsAlike_of_isStraight (hplan : e'.plan = e.plan) (hq : q.IsStraight) :
    AddsAlike PathSpec.IsBeside e e' q := by
  have hcompile : ∀ path absolute follow : Setting, path.toPathInput.IsStraight →
      CompilesAlike PathSpec.IsBeside (e.compileRoot path absolute follow)
        (e'.compileRoot path absolute follow) := by
    intro path absolute follow hpath
    rw [compileRoot, compileRoot, hplan]
    set f := follow.truth?.getD e.options.follow.truthy
    set f' := follow.truth?.getD e'.options.follow.truthy
    have hfollow :=
      PathSpec.compile_follow e.plan.ignoreCase path.toPathInput absolute.truth? none f f'
    cases hcompile : PathSpec.compile e.plan.ignoreCase path.toPathInput absolute.truth? none f with
    | error problem =>
      rw [hfollow, hcompile]
      exact .error problem
    | ok spec =>
      rw [hcompile] at hfollow
      rw [hfollow]
      exact .ok ⟨PathSpec.isStraight_of_compile hpath hcompile,
        PathSpec.isStraight_of_compile hpath hfollow, rfl⟩
  cases q with
  | call c =>
    cases c with
    | append | prepend => exact hcompile _ _ _ hq
    | next | close => trivial
  | all | setMatch | reset => trivial

/-- Options that can be used can be used whether links are followed or not, which changes nothing
but that. -/
lemma ofOptions_follow (he : ofOptions o = .ok e) (follow : Setting) :
    ∃ spec ignoreCase, o.pathSpec ignoreCase = .ok spec ∧
      e.scan = (Scan.idle o.errorPolicy).start spec ∧
      ofOptions { o with follow := follow } = .ok ⟨{ o with follow := follow }, e.plan,
        (Scan.idle o.errorPolicy).start { spec with follow := follow.truthy }⟩ := by
  obtain ⟨problems, hproblems, he⟩ := bind_eq_ok.mp he
  split at he
  · cases he
  · next hnone =>
    obtain ⟨ignoreCase, hcase, he⟩ := bind_eq_ok.mp he
    obtain ⟨spec, hspec, he⟩ := bind_eq_ok.mp he
    obtain ⟨plan, hplan, he⟩ := bind_eq_ok.mp he
    cases he
    cases hcompile : o.pathSpec ignoreCase with
    | error problem =>
      rw [hcompile] at hspec
      cases hspec
    | ok compiled =>
      rw [hcompile] at hspec
      cases hspec
      have hfollow : ({ o with follow := follow }.pathSpec ignoreCase).mapError SetupError.compile
          = .ok { spec with follow := follow.truthy } := by
        rw [Options.pathSpec_follow, hcompile]
        rfl
      refine ⟨spec, ignoreCase, hcompile, rfl, bind_eq_ok.mpr ⟨problems, hproblems, ?_⟩⟩
      rw [if_neg hnone]
      exact bind_eq_ok.mpr ⟨ignoreCase, hcase, bind_eq_ok.mpr ⟨_, hfollow,
        bind_eq_ok.mpr ⟨plan, hplan, rfl⟩⟩⟩

/-- **Following links changes nothing in a tree without links.**  Whatever is asked of an expansion,
wherever directories cannot be opened or read, whatever is left out or matched, and in whatever
order names and places come, a caller sees the same with any other setting. -/
theorem views_following (ht : t.IsPlain) (he : ofOptions o = .ok e)
    (hpath : o.path.toPathInput.IsStraight) (follow : Setting) :
    ∃ e', ofOptions { o with follow := follow } = .ok e' ∧
      ∀ requests : List (Disturbance × Request), (∀ q ∈ requests, q.2.IsStraight) →
        e'.views (requests.map fun q => (t.reader q.1, q.2))
          = e.views (requests.map fun q => (t.reader q.1, q.2)) := by
  obtain ⟨spec, ignoreCase, hcompile, hscan, he'⟩ := ofOptions_follow he follow
  have hspec : spec.IsStraight := PathSpec.isStraight_of_compile hpath hcompile
  set e' : Expansion :=
    ⟨_, e.plan, (Scan.idle o.errorPolicy).start { spec with follow := follow.truthy }⟩
  have hbeside : e.scan.IsBeside t e.plan e'.scan := by
    rw [hscan]
    exact ⟨Scan.coherent_start _ _, Scan.coherent_start _ _, Scan.isStraight_start t _ hspec,
      Scan.isStraight_start t _ hspec, rfl⟩
  refine ⟨e', he', fun requests hrequests => ?_⟩
  have hkept : ∀ q ∈ requests.map fun q => (t.reader q.1, q.2),
      Scan.IsKept q.1 e.plan PathSpec.IsBeside (Scan.IsBeside t e.plan) :=
    List.forall_mem_map.mpr fun q _ => Scan.isKept_beside ht q.1 e.plan
  have hadds : ∀ q ∈ requests.map fun q => (t.reader q.1, q.2),
      AddsAlike PathSpec.IsBeside e e' q.2 :=
    List.forall_mem_map.mpr fun q hq => addsAlike_of_isStraight rfl (hrequests q hq)
  exact views_related hkept rfl hbeside hadds

/-- Two ellipses, level by level, in a tree with a directory that cannot be opened and one that
fails while it is read; one result is asked for, a path is added, and then all that are left. -/
theorem views_following_ellipses :
    ∃ (o : Options) (e e' : Expansion) (t : Tree) (d : Disturbance)
      (requests : List (Disturbance × Request)),
      o =
        { path := .datum (.text ".///b///x"), order := .order .breadthFirst,
          sort := .datum (.truth true), follow := .datum (.truth true) } ∧
      t = ⟨[(["a"], .directory), (["b", "a"], .directory), (["x", "b", "a"], .file),
        (["b", "b", "a"], .directory), (["x", "b", "b", "a"], .file), (["c"], .directory),
        (["b", "c"], .directory), (["x", "c"], .file)]⟩ ∧
      d = ⟨[("c/b/", .permission)], [("a/b/", 1)], true⟩ ∧
      requests = [(d, .call .next),
        (.none, .call (.append (.datum (.text "c///x")) .nothing .nothing)), (d, .all)] ∧
      t.IsPlain ∧ ofOptions o = .ok e ∧ o.path.toPathInput.IsStraight ∧
      ofOptions { o with follow := .datum (.truth false) } = .ok e' ∧
      (∀ q ∈ requests, q.2.IsStraight) ∧
      e'.views (requests.map fun q => (t.reader q.1, q.2))
        = e.views (requests.map fun q => (t.reader q.1, q.2)) := by
  let o : Options :=
    { path := .datum (.text ".///b///x"), order := .order .breadthFirst,
      sort := .datum (.truth true), follow := .datum (.truth true) }
  let t : Tree :=
    ⟨[(["a"], .directory), (["b", "a"], .directory), (["x", "b", "a"], .file),
      (["b", "b", "a"], .directory), (["x", "b", "b", "a"], .file), (["c"], .directory),
      (["b", "c"], .directory), (["x", "c"], .file)]⟩
  let d : Disturbance := ⟨[("c/b/", .permission)], [("a/b/", 1)], true⟩
  have hplain : t.IsPlain := by
    have ha : Tree.IsEntryName "a" := ⟨⟨by decide, by decide⟩, rfl⟩
    have hb : Tree.IsEntryName "b" := ⟨⟨by decide, by decide⟩, rfl⟩
    have hc : Tree.IsEntryName "c" := ⟨⟨by decide, by decide⟩, rfl⟩
    have hx : Tree.IsEntryName "x" := ⟨⟨by decide, by decide⟩, rfl⟩
    refine ⟨by decide, ?_, by decide⟩
    simp only [t, List.forall_mem_cons]
    exact ⟨⟨_, _, rfl, ha, by decide⟩, ⟨_, _, rfl, hb, by decide⟩, ⟨_, _, rfl, hx, by decide⟩,
      ⟨_, _, rfl, hb, by decide⟩, ⟨_, _, rfl, hx, by decide⟩, ⟨_, _, rfl, hc, by decide⟩,
      ⟨_, _, rfl, hb, by decide⟩, ⟨_, _, rfl, hx, by decide⟩, List.forall_mem_nil _⟩
  have hpath : o.path.toPathInput.IsStraight :=
    PathSpec.PathInput.isStraight_text (by decide +kernel)
  have hok : (ofOptions o).isOk = true := by decide +kernel
  cases he : ofOptions o with
  | error problem =>
    rw [he] at hok
    cases hok
  | ok e =>
    obtain ⟨e', he', hviews⟩ := views_following hplain he hpath (.datum (.truth false))
    have hadded : PathSpec.PathInput.IsStraight (Setting.datum (.text "c///x")).toPathInput :=
      PathSpec.PathInput.isStraight_text (by decide +kernel)
    have hrequests : ∀ q ∈ [(d, Request.call .next),
        (.none, .call (.append (.datum (.text "c///x")) .nothing .nothing)), (d, .all)],
        q.2.IsStraight := by
      simp only [List.forall_mem_cons]
      exact ⟨trivial, hadded, trivial, List.forall_mem_nil _⟩
    exact ⟨o, e, e', t, d, _, rfl, rfl, rfl, rfl, hplain, he, hpath, he', hrequests,
      hviews _ hrequests⟩

end Expansion

end PathExpansion
