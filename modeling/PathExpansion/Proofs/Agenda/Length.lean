import Mathlib.Tactic.Ring
import PathExpansion.Proofs.Agenda.Finite

/-!
# Agendas are not longer than the patience of a scan

A step does at least one deed, so the length of the agenda bounds the steps that are left.  Each
component multiplies the length by what a directory can hold, and an ellipsis does so once for each
level; the extent of a finite reader bounds both.

* `growth` — what one component multiplies the length by, at most.
* `Descent.AtMost` — a descent does at most so many deeds, wherever it begins.
* **`Trip.walk_atMost`** — the deeds of a descent are at most `growth` to the number of components.
* **`Scan.length_agenda_le`** — an agenda is shorter than two to the power of `Scan.patience`.
-/

namespace PathExpansion

/-- A list that is replaced by short lists. -/
lemma length_flatMap_le {α β : Type} {f : α → List β} {k : ℕ} :
    ∀ {as : List α}, (∀ a ∈ as, (f a).length ≤ k) → (as.flatMap f).length ≤ as.length * k
  | [], _ => by simp
  | a :: as, h => by
      have hhead := h a List.mem_cons_self
      have htail := length_flatMap_le (f := f) fun b hb => h b (List.mem_cons_of_mem a hb)
      rw [List.flatMap_cons, List.length_append, List.length_cons, Nat.succ_mul]
      omega

/-! ## How an ellipsis grows -/

/-- What one component multiplies the number of deeds by, at most, if no directory holds more than
`n` names and no descent goes further than `n` levels. -/
def growth (n : ℕ) : ℕ := 2 ^ ((n + 2) * (n + 2))

lemma two_mul_add_six_le (n : ℕ) : 2 * n + 6 ≤ 2 ^ (n + 3) := by
  induction n with
  | zero => decide
  | succ n ih =>
    rw [show n + 1 + 3 = n + 3 + 1 by rfl, Nat.pow_succ]
    omega

/-- An ellipsis goes down `n + 1` times, and multiplies by `n + 1` each time. -/
lemma levels_le_growth (n : ℕ) : (2 * n + 6) * (n + 1) ^ (n + 1) ≤ growth n := by
  have hbase : n + 1 ≤ 2 ^ n := Nat.lt_two_pow_self
  have hpow : (n + 1) ^ (n + 1) ≤ 2 ^ (n * (n + 1)) := by
    rw [Nat.pow_mul]
    exact Nat.pow_le_pow_left hbase _
  calc (2 * n + 6) * (n + 1) ^ (n + 1)
      ≤ 2 ^ (n + 3) * 2 ^ (n * (n + 1)) := Nat.mul_le_mul (two_mul_add_six_le n) hpow
    _ = 2 ^ (n + 3 + n * (n + 1)) := (Nat.pow_add _ _ _).symm
    _ ≤ growth n := Nat.pow_le_pow_right (by decide) (by nlinarith)

/-- One listing multiplies by less. -/
lemma le_growth (n : ℕ) : 3 * n + 6 ≤ growth n := by
  have hpow : n + 1 ≤ (n + 1) ^ (n + 1) := Nat.le_self_pow (Nat.succ_ne_zero n) (n + 1)
  have hlevels := levels_le_growth n
  nlinarith

lemma one_le_growth (n : ℕ) : 1 ≤ growth n := (Nat.le_add_left 1 (3 * n + 5)).trans (le_growth n)

/-- A descent does at most so many deeds, wherever it begins. -/
def Descent.AtMost (next : Descent) (x : ℕ) : Prop :=
  ∀ path visited, (next path visited).length ≤ x

/-- The number of names that a frame has not read yet. -/
def Frame.unreadCount (f : Frame) : ℕ := (f.cursor.map (·.unread.length)).getD 0

namespace Trip

variable {t : Trip} {next : Descent} {x : ℕ}

/-! ## Names and directories -/

lemma literal_atMost (h : next.AtMost x) (name : String) (descent deep : Bool) :
    (t.literal name descent deep next).AtMost (x + 1) := by
  intro path visited
  unfold literal
  rw [List.length_cons, Nat.add_le_add_iff_right]
  cases t.extend path visited name descent with
  | none => exact Nat.zero_le x
  | some p =>
    simp only
    split
    · exact Nat.zero_le x
    · exact h p.1 p.2

lemma length_names_le {sub : String → Descent} (h : ∀ name, (sub name).AtMost x)
    (wanted : String → Bool) (ns : List String) (path : String) (visited : Visited) :
    (names wanted sub ns path visited).length ≤ ns.length * (x + 1) := by
  refine (length_flatMap_le fun name _ => ?_).trans
    (Nat.mul_le_mul_right _ (List.length_filter_le wanted ns))
  exact Nat.succ_le_succ (h name path visited)

lemma length_readFault_le (path : String) (fault : Option Fault) :
    (Deed.readFault path fault).length ≤ 1 := by
  cases fault with
  | none => exact Nat.zero_le 1
  | some fault => exact le_refl 1

lemma length_listed_le (hr : t.reader.IsFinite) {path : String} {l : Listing}
    (h : t.reader.listed t.plan path = .ok l) : l.names.length ≤ t.reader.extent := by
  obtain ⟨l', hl', hperm⟩ := Reader.listed_perm h
  rw [hperm.length_eq]
  exact hr.names_le hl'

lemma listing_atMost (hr : t.reader.IsFinite) {sub : String → Descent}
    (h : ∀ name, (sub name).AtMost x) (wanted : String → Bool) :
    (t.listing wanted sub).AtMost (t.reader.extent * (x + 1) + 3) := by
  intro path visited
  unfold listing
  cases hl : t.reader.listed t.plan path with
  | error fault => simp
  | ok l =>
    have hnames := length_names_le h wanted l.names path visited
    have hfault := length_readFault_le path l.fault
    have hextent := Nat.mul_le_mul_right (x + 1) (length_listed_le hr hl)
    simp only [List.length_cons, List.length_append, List.length_nil]
    omega

/-! ## Ellipses -/

lemma combine_atMost {under : Descent} {y : ℕ} (h : next.AtMost x) (hunder : under.AtMost y) :
    (t.combine next under).AtMost (x + y + 2) := by
  intro path visited
  have hnext := h path (t.entered path visited)
  have hdeeper : (if isEnterable path then under path (t.entered path visited) else []).length
      ≤ y := by
    split
    · exact hunder path (t.entered path visited)
    · exact Nat.zero_le y
  unfold combine
  simp only
  split <;> simp only [List.length_cons, List.length_append] <;> omega

lemma nested_atMost (hr : t.reader.IsFinite) (h : next.AtMost x) (deep : Bool) :
    ∀ m, (t.nested deep next m).AtMost
      ((x + 2 * t.reader.extent + 5) * (t.reader.extent + 1) ^ m)
  | 0 => by
      intro path visited
      have hnone : Descent.AtMost (fun _ _ => []) 0 := fun _ _ => le_refl 0
      have hbase := combine_atMost (t := t) h hnone path visited
      unfold nested
      rw [Nat.pow_zero, Nat.mul_one]
      omega
  | m + 1 => by
      set n := t.reader.extent with hn
      set a := x + 2 * n + 5 with ha
      intro path visited
      have hsub : ∀ name, (t.literal name true deep (t.nested deep next m)).AtMost
          ((x + 2 * t.reader.extent + 5) * (t.reader.extent + 1) ^ m + 1) := fun name =>
        literal_atMost (nested_atMost hr h deep m) name true deep
      have hunder := listing_atMost hr hsub (Wildcard.anyEntry t.plan.ignoreCase).wants
      have hstep := combine_atMost (t := t) h hunder path visited
      have hgrow : a ≤ a * (n + 1) ^ m := Nat.le_mul_of_pos_right a (Nat.pow_pos (Nat.succ_pos n))
      rw [← hn, ← ha] at hstep
      unfold nested
      refine hstep.trans ?_
      calc x + (n * (a * (n + 1) ^ m + 1 + 1) + 3) + 2
          = a + n * (a * (n + 1) ^ m) := by rw [ha]; ring
        _ ≤ a * (n + 1) ^ m + n * (a * (n + 1) ^ m) := Nat.add_le_add_right hgrow _
        _ = a * (n + 1) ^ (m + 1) := by ring

/-! ## Levels -/

lemma length_reached_le (names : List String) (path : String) (visited : Visited) :
    (t.reached names path visited).length ≤ names.length :=
  (List.length_filterMap_le _ _).trans (List.length_filter_le _ _)

lemma length_found_le (h : next.AtMost x) (deep : Bool) (names : List String) (path : String)
    (visited : Visited) :
    (t.found deep next names path visited).length ≤ names.length * (x + 1) := by
  refine (length_flatMap_le fun p _ => ?_).trans (Nat.mul_le_mul_right _
    ((List.length_filter_le _ _).trans (length_reached_le names path visited)))
  exact Nat.succ_le_succ (h p.1 p.2)

lemma length_directories_le (names : List String) (path : String) (visited : Visited) :
    (t.directories names path visited).length ≤ names.length :=
  (List.length_filter_le _ _).trans (length_reached_le names path visited)

lemma length_visit_le (hr : t.reader.IsFinite) (h : next.AtMost x) (deep : Bool)
    (d : String × Visited) :
    (t.visit deep next d).length ≤ t.reader.extent * (x + 1) + 2 := by
  unfold visit
  cases hl : t.reader.listed t.plan d.1 with
  | error fault => simp
  | ok l =>
    have hfound := length_found_le (t := t) h deep l.names d.1 d.2
    have hfault := length_readFault_le d.1 l.fault
    have hextent := Nat.mul_le_mul_right (x + 1) (length_listed_le hr hl)
    simp only [List.length_cons, List.length_append]
    omega

lemma length_subdirectories_le (hr : t.reader.IsFinite) (d : String × Visited) :
    (t.subdirectories d).length ≤ t.reader.extent := by
  unfold subdirectories
  cases hl : t.reader.listed t.plan d.1 with
  | error fault => exact Nat.zero_le _
  | ok l => exact (length_directories_le l.names d.1 d.2).trans (length_listed_le hr hl)

lemma length_levels_le (hr : t.reader.IsFinite) (h : next.AtMost x) (deep : Bool) :
    ∀ (m : ℕ) (dirs : List (String × Visited)), (t.levels deep next m dirs).length
      ≤ dirs.length * ((t.reader.extent * (x + 1) + 2) * (t.reader.extent + 1) ^ m)
  | 0, dirs => Nat.zero_le _
  | m + 1, dirs => by
      set n := t.reader.extent with hn
      set b := n * (x + 1) + 2 with hb
      have hhere : (dirs.flatMap (t.visit deep next)).length ≤ dirs.length * b :=
        length_flatMap_le fun d _ => length_visit_le hr h deep d
      have hbelow : (dirs.flatMap t.subdirectories).length ≤ dirs.length * n :=
        length_flatMap_le fun d _ => length_subdirectories_le hr d
      have hrest := (length_levels_le hr h deep m (dirs.flatMap t.subdirectories)).trans
        (Nat.mul_le_mul_right _ hbelow)
      have hgrow : b ≤ b * (n + 1) ^ m := Nat.le_mul_of_pos_right b (Nat.pow_pos (Nat.succ_pos n))
      rw [levels, List.length_append]
      calc (dirs.flatMap (t.visit deep next)).length
            + (t.levels deep next m (dirs.flatMap t.subdirectories)).length
          ≤ dirs.length * b + dirs.length * n * (b * (n + 1) ^ m) := Nat.add_le_add hhere hrest
        _ ≤ dirs.length * (b * (n + 1) ^ m) + dirs.length * n * (b * (n + 1) ^ m) :=
            Nat.add_le_add_right (Nat.mul_le_mul_left _ hgrow) _
        _ = dirs.length * (b * (n + 1) ^ (m + 1)) := by ring

/-- What a queue of `k` directories, and as many names, comes to. -/
lemma queue_le_growth {k : ℕ} (hx : 1 ≤ x) (n : ℕ) :
    k * (x + 1) + k * ((n * (x + 1) + 2) * (n + 1) ^ (n + 1)) + 2 ≤ (k + 1) * (x * growth n) := by
  have hpow : 1 ≤ (n + 1) ^ (n + 1) := Nat.pow_pos (Nat.succ_pos n)
  have hnames : x + 1 ≤ 2 * x * (n + 1) ^ (n + 1) := by nlinarith
  have hvisit : (n * (x + 1) + 2) * (n + 1) ^ (n + 1) ≤ (2 * n + 2) * x * (n + 1) ^ (n + 1) :=
    Nat.mul_le_mul_right _ (by nlinarith)
  have hone : (2 * n + 6) * x * (n + 1) ^ (n + 1) ≤ x * growth n := by
    have := Nat.mul_le_mul_left x (levels_le_growth n)
    linarith
  have hsmall : 2 ≤ (2 * n + 6) * x * (n + 1) ^ (n + 1) := by nlinarith
  nlinarith [Nat.mul_le_mul_left k hnames, Nat.mul_le_mul_left k hvisit,
    Nat.mul_le_mul_left k hone]

/-! ## Descents -/

lemma ellipsis_atMost (hr : t.reader.IsFinite) (hx : 1 ≤ x) (h : next.AtMost x)
    (rest : List Component) :
    (t.ellipsis rest next (t.reader.extent + 1)).AtMost (x * growth t.reader.extent) := by
  set n := t.reader.extent with hn
  have hpow : 1 ≤ (n + 1) ^ (n + 1) := Nat.pow_pos (Nat.succ_pos n)
  have hone : x * ((2 * n + 6) * (n + 1) ^ (n + 1)) ≤ x * growth n :=
    Nat.mul_le_mul_left x (levels_le_growth n)
  have hnested : (t.nested (needsDirectory rest) next (n + 1)).AtMost (x * growth n) := by
    intro path visited
    refine (nested_atMost hr h (needsDirectory rest) (n + 1) path visited).trans
      (le_trans ?_ hone)
    rw [← hn, ← Nat.mul_assoc]
    exact Nat.mul_le_mul_right _ (by nlinarith)
  unfold ellipsis
  cases t.plan.order with
  | normal => exact hnested
  | insideOut => exact hnested
  | breadthFirst =>
    intro path visited
    have hbare : (if rest.isEmpty then [] else next path (t.entered path visited)).length ≤ x := by
      split
      · exact Nat.zero_le x
      · exact h path _
    have hlevels := length_levels_le hr h (needsDirectory rest) (n + 1)
      (if isEnterable path then [(path, t.entered path visited)] else [])
    have hqueue : (if isEnterable path then [(path, t.entered path visited)] else []).length
        ≤ 1 := by
      split <;> simp
    have hbound := hlevels.trans (Nat.mul_le_mul_right _ hqueue)
    rw [← hn] at hbound
    simp only [byLevel, List.length_cons, List.length_append, List.length_nil]
    have htotal : x + 1 * ((n * (x + 1) + 2) * (n + 1) ^ (n + 1)) + 2
        ≤ x * ((2 * n + 6) * (n + 1) ^ (n + 1)) := by
      have hvisit : (n * (x + 1) + 2) * (n + 1) ^ (n + 1) ≤ x * (2 * n + 2) * (n + 1) ^ (n + 1) :=
        Nat.mul_le_mul_right _ (by nlinarith)
      have hrest : x + 2 ≤ x * 4 * (n + 1) ^ (n + 1) := by nlinarith
      nlinarith
    omega

/-- **A descent does at most `growth` deeds for each component**, multiplied. -/
theorem walk_atMost (hr : t.reader.IsFinite) :
    ∀ components : List Component,
      (t.walk components).AtMost (growth t.reader.extent ^ components.length)
  | [] => fun _ _ => le_refl 1
  | c :: rest => by
      set n := t.reader.extent with hn
      have ih := walk_atMost hr rest
      rw [← hn] at ih
      have hx : 1 ≤ growth n ^ rest.length := Nat.pow_pos (one_le_growth n)
      have hgrowth := le_growth n
      set x := growth n ^ rest.length with hdef
      rw [List.length_cons, Nat.pow_succ, ← hdef]
      intro path visited
      cases c with
      | literal name descent =>
        refine (literal_atMost ih name descent _ path visited).trans ?_
        nlinarith
      | wildcard w =>
        refine (listing_atMost hr (fun name => literal_atMost ih name w.descent _)
          w.wants path visited).trans ?_
        rw [← hn]
        nlinarith
      | ellipsis => exact ellipsis_atMost hr hx ih rest path visited

/-! ## What is left of a listing, and of a level -/

lemma length_underGlob_le (hr : t.reader.IsFinite) (f : Frame) (c : Cursor) :
    (names f.wants (t.underGlob f) c.unread f.path f.visited
      ++ Deed.readFault f.path c.fault ++ [Deed.moved]).length
        ≤ (c.unread.length + 1) * growth t.reader.extent ^ (f.remaining.length + 1) := by
  have hx : 1 ≤ growth t.reader.extent ^ f.remaining.length := Nat.pow_pos (one_le_growth _)
  have hsix : 6 ≤ growth t.reader.extent := (Nat.le_add_left 6 _).trans (le_growth _)
  have hunder : ∀ name, (t.underGlob f name).AtMost
      (growth t.reader.extent ^ f.remaining.length + 1) := fun name =>
    literal_atMost (walk_atMost hr f.remaining) name _ _
  have hnames := length_names_le hunder f.wants c.unread f.path f.visited
  have hfault := length_readFault_le f.path c.fault
  have hgrow := Nat.mul_le_mul_left (growth t.reader.extent ^ f.remaining.length) hsix
  simp only [List.length_append, List.length_singleton]
  rw [Nat.pow_succ]
  nlinarith [Nat.mul_le_mul_left c.unread.length hgrow, Nat.mul_le_mul_left c.unread.length hx]

lemma length_restOfLevels_le (hr : t.reader.IsFinite) (f : Frame)
    (queue : List (String × Visited)) :
    (t.restOfLevels f queue).length
      ≤ (queue.length + f.unreadCount + 1)
        * growth t.reader.extent ^ (f.remaining.length + 1) + 1 := by
  set n := t.reader.extent with hn
  have hnext := walk_atMost hr f.remaining
  rw [← hn] at hnext
  have hx : 1 ≤ growth n ^ f.remaining.length := Nat.pow_pos (one_le_growth n)
  set x := growth n ^ f.remaining.length with hxdef
  rw [Nat.pow_succ, ← hxdef]
  have hlevels := length_levels_le hr hnext (needsDirectory f.remaining) (n + 1)
  rw [← hn] at hlevels
  unfold restOfLevels
  simp only [← hn]
  cases hcursor : f.cursor with
  | none =>
    have hcount : f.unreadCount = 0 := by rw [Frame.unreadCount, hcursor]; rfl
    have hbound := queue_le_growth (k := queue.length) hx n
    have h := hlevels queue
    simp only [hcount, List.length_append, List.length_singleton, Nat.add_zero]
    omega
  | some c =>
    have hcount : f.unreadCount = c.unread.length := by rw [Frame.unreadCount, hcursor]; rfl
    have hbound := queue_le_growth (k := queue.length + c.unread.length) hx n
    have hfound := length_found_le (t := t) hnext (needsDirectory f.remaining) c.unread f.path
      f.visited
    have hfault := length_readFault_le f.path c.fault
    have hdirs := length_directories_le (t := t) c.unread f.path f.visited
    have h := (hlevels (queue ++ t.directories c.unread f.path f.visited)).trans
      (Nat.mul_le_mul_right _ (show _ ≤ queue.length + c.unread.length by
        rw [List.length_append]; omega))
    have hnames : c.unread.length * (x + 1) ≤ (queue.length + c.unread.length) * (x + 1) :=
      Nat.mul_le_mul_right _ (Nat.le_add_left _ _)
    simp only [hcount, List.length_append, List.length_singleton]
    omega

end Trip

/-! ## Frames and scans -/

section

variable {r : Reader} {plan : Plan}

/-- Two to the power of the weight of a frame, in terms of what each component multiplies by. -/
lemma two_pow_frameWeight (s : Scan) (f : Frame) :
    2 ^ s.frameWeight r f
      = 2 ^ ((f.pending.getD []).length + f.unreadCount)
        * growth r.extent ^ (f.remaining.length + (s.specOf f.root).components.length + 2) := by
  unfold Scan.frameWeight growth Frame.unreadCount
  simp only
  rw [Nat.add_comm, Nat.pow_add, Nat.mul_assoc, ← Nat.pow_mul, Nat.mul_comm (_ + _ + 2)]

/-- **The deeds of a frame are at most two to the power of its weight**, but for one. -/
theorem Frame.length_agenda_le (hr : r.IsFinite) (s : Scan) (f : Frame) :
    (f.agenda r plan (s.specOf f.root)).length ≤ 2 ^ s.frameWeight r f + 1 := by
  rw [two_pow_frameWeight]
  set t : Trip := ⟨r, plan, (s.specOf f.root).follow, f.root⟩ with ht
  have hrt : t.reader.IsFinite := hr
  set g := growth r.extent with hg
  set m := f.remaining.length + (s.specOf f.root).components.length + 2 with hm
  set k := (f.pending.getD []).length + f.unreadCount with hk
  have hwait : k + 1 ≤ 2 ^ k := Nat.lt_two_pow_self
  have hle : ∀ {a b : ℕ}, a ≤ 2 ^ k → b ≤ m → a * g ^ b ≤ 2 ^ k * g ^ m := fun ha hb =>
    Nat.mul_le_mul ha (Nat.pow_le_pow_right (one_le_growth _) hb)
  have hwalk : ∀ components path visited, components.length ≤ m →
      (t.walk components path visited).length ≤ 2 ^ k * g ^ m := by
    intro components path visited hlength
    have h := hle Nat.one_le_two_pow hlength
    rw [Nat.one_mul] at h
    exact (Trip.walk_atMost hrt components path visited).trans h
  unfold Frame.agenda
  simp only
  cases f.phase with
  | initial => exact Nat.succ_le_succ (hwalk _ _ _ (by omega))
  | component => exact (hwalk _ _ _ (by omega)).trans (Nat.le_succ _)
  | listing =>
    cases hcursor : f.cursor with
    | none => exact Nat.le_add_left 1 _
    | some c =>
      have hcount : f.unreadCount = c.unread.length := by
        rw [Frame.unreadCount, hcursor]
        rfl
      have h := hle (a := c.unread.length + 1) (b := f.remaining.length + 1) (by omega) (by omega)
      exact ((Trip.length_underGlob_le hrt f c).trans h).trans (Nat.le_succ _)
  | ellipsis =>
    cases hpending : f.pending with
    | none =>
      refine Nat.succ_le_succ ?_
      split
      · exact hwalk _ _ _ (by simp only [List.length_cons]; omega)
      · exact Nat.zero_le _
    | some queue =>
      have hcount : k = queue.length + f.unreadCount := by rw [hk, hpending]; rfl
      have h := hle (b := f.remaining.length + 1) hwait (by omega)
      rw [hcount] at h ⊢
      exact (Trip.length_restOfLevels_le hrt f queue).trans (Nat.succ_le_succ h)
  | finished => exact Nat.zero_le _

lemma foldl_add_eq {α : Type} (weight : α → ℕ) :
    ∀ (as : List α) (n : ℕ), as.foldl (fun n a => n + weight a) n = n + (as.map weight).sum
  | [], n => by simp
  | a :: as, n => by
      rw [List.foldl_cons, foldl_add_eq weight as, List.map_cons, List.sum_cons, Nat.add_assoc]

/-- Whatever a scan has to do, its patience is not small. -/
lemma Scan.le_patience (r : Reader) (s : Scan) : 64 ≤ s.patience r := by
  rw [patience, foldl_add_eq]
  exact Nat.le_add_right _ _

/-- A sum of powers is less than the power of a sum, where no exponent is zero. -/
lemma length_flatMap_le_two_pow {α β : Type} {f : α → List β} {weight : α → ℕ} :
    ∀ {as : List α}, (∀ a ∈ as, (f a).length ≤ 2 ^ weight a + 1 ∧ 2 ≤ weight a) →
      (as.flatMap f).length + 2 ≤ 2 * 2 ^ (as.map weight).sum
  | [], _ => by simp
  | a :: as, h => by
      obtain ⟨hlength, hweight⟩ := h a List.mem_cons_self
      have htail := length_flatMap_le_two_pow fun b hb => h b (List.mem_cons_of_mem a hb)
      have hfour : 2 ^ 2 ≤ 2 ^ weight a := Nat.pow_le_pow_right (by decide) hweight
      have hone : 1 ≤ 2 ^ (as.map weight).sum := Nat.one_le_two_pow
      rw [List.flatMap_cons, List.length_append, List.map_cons, List.sum_cons, Nat.pow_add]
      nlinarith

/-- **An agenda is shorter than two to the power of the patience of its scan.** -/
theorem Scan.length_agenda_le (plan : Plan) (hr : r.IsFinite) (s : Scan) :
    (s.agenda r plan).length + 2 ≤ 2 ^ s.patience r := by
  have hframes : ∀ f ∈ s.frame :: s.stack,
      (f.agenda r plan (s.specOf f.root)).length ≤ 2 ^ s.frameWeight r f + 1 ∧
        2 ≤ s.frameWeight r f := by
    intro f _
    refine ⟨f.length_agenda_le hr s, ?_⟩
    have hcomponents : 2 ≤ f.remaining.length + (s.specOf f.root).components.length + 2 :=
      Nat.le_add_left 2 _
    unfold frameWeight
    simp only
    nlinarith [Nat.mul_le_mul hcomponents (Nat.le_add_left 2 r.extent)]
  have h := length_flatMap_le_two_pow hframes
  unfold patience
  rw [foldl_add_eq, Nat.pow_add]
  exact h.trans (Nat.mul_le_mul_right _ (by decide))

end

end PathExpansion
