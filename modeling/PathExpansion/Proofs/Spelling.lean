import PathExpansion.Proofs.Tree.Paths

/-!
# How a path is spelled

A path is written as names with runs of slashes between them.  A run of one or two slashes divides
two names, and every further pair stands for one more ellipsis between them.  In front of the first
name a run of one or two marks the root.  Whatever the runs are, no name gets lost, except for the
dot of a path that begins with a dot and a slash.

* `PathSpec.Spelling` — names, with the slashes in front of them and behind each.
* `PathSpec.Spelling.exists_spelling` — every path is spelled in this way.
* `PathSpec.Spelling.parts` — the parts that the names and the runs of slashes come to.
* `PathSpec.runs_changed` — what a change of each run of slashes makes of a path.
* `PathSpec.collapse_slashes`, `PathSpec.collapse_written` — each run is halved, and rounded up.
* `PathSpec.trimmed_written` — what is left of the stretches between slashes once those at the ends
  are dropped.
* **`PathSpec.split_spelling`** — a path is split into the parts of its spelling.
-/

namespace PathExpansion.PathSpec

/-! ## Names and slashes -/

/-- **How a path is spelled**: so many slashes, then names, each with so many slashes behind it.
Only behind the last name there need not be any. -/
structure Spelling where
  leading : ℕ
  names : List (String × ℕ)
  isName : ∀ n ∈ names, IsName n.1
  divided : ∀ n ∈ names.dropLast, 1 ≤ n.2

/-- So many slashes. -/
def slashes (n : ℕ) : List Char := List.replicate n '/'

/-- Names, each with the slashes behind it. -/
def namesText (names : List (String × ℕ)) : List Char :=
  names.flatMap fun n => n.1.toList ++ slashes n.2

/-- Slashes, and names behind them. -/
def written (leading : ℕ) (names : List (String × ℕ)) : List Char :=
  slashes leading ++ namesText names

/-- Names, each with so many empty parts behind it as `ellipses` makes of its slashes. -/
def partsOf (ellipses : ℕ → ℕ) (names : List (String × ℕ)) : List String :=
  names.flatMap fun n => n.1 :: List.replicate (ellipses n.2) ""

/-- What is left of a run of slashes if every pair of them counts as one. -/
def halved (slashes : ℕ) : ℕ := (slashes + 1) / 2

namespace Spelling

/-- The path that is spelled. -/
def text (w : Spelling) : String := String.ofList (written w.leading w.names)

/-- The path begins with a dot and a slash, behind the slashes of the root if there are any. -/
def hidesDot (w : Spelling) : Bool :=
  match w.names with
  | [] => false
  | n :: _ => n.1 = "." && w.leading ≤ 2 && 1 ≤ n.2

/-- The names that are parts: all but a dot at the beginning. -/
def kept (w : Spelling) : List String :=
  if w.hidesDot then (w.names.map (·.1)).tail else w.names.map (·.1)

/-- **The parts of a spelling.**  An ellipsis is an empty part.  Of a run of slashes, every pair but
the first is one, also behind a dot that is left out; in front of the names, every pair but the
first two. -/
def parts (w : Spelling) : List String :=
  let behind := partsOf (fun slashes => halved slashes - 1) w.names
  List.replicate (halved w.leading - 2) "" ++ if w.hidesDot then behind.tail else behind

end Spelling

@[simp] lemma slashes_zero : slashes 0 = [] := rfl

lemma slashes_succ (n : ℕ) : slashes (n + 1) = '/' :: slashes n := rfl

@[simp] lemma namesText_nil : namesText [] = [] := rfl

lemma namesText_cons (n : String × ℕ) (names : List (String × ℕ)) :
    namesText (n :: names) = n.1.toList ++ (slashes n.2 ++ namesText names) := by
  simp [namesText]

/-- A name begins with a character that is no slash. -/
lemma exists_cons_of_isName {name : String} (h : IsName name) :
    ∃ c cs, name.toList = c :: cs ∧ c ≠ '/' ∧ '/' ∉ cs := by
  obtain ⟨hne, hslash⟩ := h
  obtain ⟨c, cs, hname⟩ := List.exists_cons_of_ne_nil (mt String.toList_eq_nil_iff.mp hne)
  rw [hname, List.mem_cons, not_or] at hslash
  exact ⟨c, cs, hname, Ne.symm hslash.1, hslash.2⟩

/-- Behind a run of slashes there is a name, or nothing. -/
lemma head?_namesText {names : List (String × ℕ)} (h : ∀ n ∈ names, IsName n.1) :
    (namesText names).head? ≠ some '/' := by
  cases names with
  | nil => simp
  | cons n names =>
    obtain ⟨c, cs, hname, hc, -⟩ := exists_cons_of_isName (h n List.mem_cons_self)
    simp [namesText_cons, hname, hc]

/-- Each name but the last is divided from what is behind it. -/
lemma divided_cons {n : String × ℕ} {names : List (String × ℕ)} :
    (∀ m ∈ (n :: names).dropLast, 1 ≤ m.2) ↔
      (names = [] ∨ 1 ≤ n.2) ∧ ∀ m ∈ names.dropLast, 1 ≤ m.2 := by
  cases names <;> simp

/-! ## Every path is spelled -/

/-- A character in front of a spelling: a slash in front of the others, a name of its own in front
of slashes, or the beginning of the first name. -/
lemma Spelling.exists_cons (c : Char) (w : Spelling) :
    ∃ w' : Spelling, written w'.leading w'.names = c :: written w.leading w.names := by
  obtain ⟨leading, names, hnames, hdivided⟩ := w
  by_cases hc : c = '/'
  · subst hc
    exact ⟨⟨leading + 1, names, hnames, hdivided⟩, rfl⟩
  have hsingle : IsName (String.ofList [c]) := by
    simp [IsName, Ne.symm hc, ← String.toList_eq_nil_iff]
  cases leading with
  | succ k =>
    refine ⟨⟨0, (String.ofList [c], k + 1) :: names, List.forall_mem_cons.mpr ⟨hsingle, hnames⟩,
      divided_cons.mpr ⟨Or.inr (Nat.le_add_left 1 k), hdivided⟩⟩, ?_⟩
    simp [written, namesText_cons]
  | zero =>
    cases names with
    | nil =>
      refine ⟨⟨0, [(String.ofList [c], 0)], List.forall_mem_singleton.mpr hsingle, by simp⟩, ?_⟩
      simp [written, namesText_cons]
    | cons m names =>
      obtain ⟨hm, hrest⟩ := List.forall_mem_cons.mp hnames
      obtain ⟨hlast, hbehind⟩ := divided_cons.mp hdivided
      have hlonger : IsName (String.ofList (c :: m.1.toList)) := by
        simp [IsName, Ne.symm hc, hm.2, ← String.toList_eq_nil_iff]
      refine ⟨⟨0, (String.ofList (c :: m.1.toList), m.2) :: names,
        List.forall_mem_cons.mpr ⟨hlonger, hrest⟩, divided_cons.mpr ⟨hlast, hbehind⟩⟩, ?_⟩
      simp [written, namesText_cons]

/-- **Every path is spelled** by names with slashes in front of them and behind each. -/
theorem Spelling.exists_spelling (path : String) : ∃ w : Spelling, w.text = path := by
  have hall : ∀ cs : List Char, ∃ w : Spelling, written w.leading w.names = cs := by
    intro cs
    induction cs with
    | nil => exact ⟨⟨0, [], by simp, by simp⟩, rfl⟩
    | cons c cs ih =>
      obtain ⟨w, rfl⟩ := ih
      exact w.exists_cons c
  obtain ⟨w, hw⟩ := hall path.toList
  exact ⟨w, by rw [text, hw, String.ofList_toList]⟩

/-! ## Runs of slashes -/

section

variable {f : List Char → List Char}
  (hcons : ∀ {c : Char}, c ≠ '/' → ∀ rest, f (c :: rest) = c :: f rest)

include hcons

/-- What changes nothing but slashes leaves names as they are. -/
lemma name_unchanged {name : List Char} (h : '/' ∉ name) (rest : List Char) :
    f (name ++ rest) = name ++ f rest := by
  induction name with
  | nil => rfl
  | cons c cs ih =>
    rw [List.mem_cons, not_or] at h
    rw [List.cons_append, hcons (Ne.symm h.1), ih h.2, List.cons_append]

/-- **What changes each run of slashes by itself** changes a path run by run. -/
lemma runs_changed (hnil : f [] = []) {changed : ℕ → ℕ}
    (hslashes : ∀ {rest : List Char}, rest.head? ≠ some '/' →
      ∀ n, f (slashes n ++ rest) = slashes (changed n) ++ f rest)
    {names : List (String × ℕ)} (h : ∀ n ∈ names, IsName n.1) (leading : ℕ) :
    f (written leading names)
      = written (changed leading) (names.map fun n => (n.1, changed n.2)) := by
  have hnames : f (namesText names) = namesText (names.map fun n => (n.1, changed n.2)) := by
    induction names with
    | nil => exact hnil
    | cons n names ih =>
      obtain ⟨hn, hrest⟩ := List.forall_mem_cons.mp h
      rw [List.map_cons, namesText_cons, namesText_cons, name_unchanged hcons hn.2,
        hslashes (head?_namesText hrest), ih hrest]
  rw [written, written, hslashes (head?_namesText h), hnames]

end

/-! ## Pairs of slashes -/

lemma collapse_cons {c : Char} (hc : c ≠ '/') (rest : List Char) :
    collapse (c :: rest) = c :: collapse rest := by
  rw [collapse]
  exact fun _ h => absurd h hc

/-- **Of a run of slashes every pair becomes one**, and one that is left over stays. -/
lemma collapse_slashes {rest : List Char} (h : rest.head? ≠ some '/') (n : ℕ) :
    collapse (slashes n ++ rest) = slashes (halved n) ++ collapse rest := by
  induction n using Nat.twoStepInduction with
  | zero => rfl
  | one =>
    have hone : collapse ('/' :: rest) = '/' :: collapse rest := by
      rw [collapse]
      rintro rest' - rfl
      exact h rfl
    exact hone
  | more n ih _ =>
    have hhalved : halved (n + 2) = halved n + 1 := by
      unfold halved
      omega
    rw [slashes_succ, slashes_succ, hhalved, slashes_succ, List.cons_append, List.cons_append,
      List.cons_append, collapse, ih]

/-- **Each run of slashes is halved.** -/
lemma collapse_written {names : List (String × ℕ)} (h : ∀ n ∈ names, IsName n.1) (leading : ℕ) :
    collapse (written leading names)
      = written (halved leading) (names.map fun n => (n.1, halved n.2)) :=
  runs_changed collapse_cons rfl collapse_slashes h leading

/-! ## The ends of a path -/

/-- A slash in front marks the root. -/
lemma dropSlash_written {names : List (String × ℕ)} (h : ∀ n ∈ names, IsName n.1) (leading : ℕ) :
    dropSlash (written leading names) = written (leading - 1) names := by
  cases leading with
  | succ n => rfl
  | zero =>
    have hhead := head?_namesText h
    rw [written, slashes_zero, List.nil_append, dropSlash]
    · rintro rest hrest
      rw [hrest] at hhead
      exact hhead rfl

/-- A dot in front is dropped if it is a name of its own and a slash is behind it. -/
lemma dropDot_written {n : String × ℕ} {names : List (String × ℕ)} (hn : IsName n.1)
    (hdivided : names = [] ∨ 1 ≤ n.2) (leading : ℕ) :
    dropDot (written leading (n :: names))
      = if leading = 0 ∧ n.1 = "." ∧ 1 ≤ n.2 then written n.2 names
        else written leading (n :: names) := by
  obtain ⟨name, k⟩ := n
  cases leading with
  | succ m => rfl
  | zero =>
    obtain ⟨c, cs, hname, -, hcs⟩ := exists_cons_of_isName hn
    have hdot : name = "." ↔ c = '.' ∧ cs = [] := by
      rw [← String.toList_inj, hname]
      simp
    rw [written, slashes_zero, List.nil_append, namesText_cons, hname]
    split_ifs with h
    · obtain ⟨-, hname', hk⟩ := h
      obtain ⟨rfl, rfl⟩ := hdot.mp hname'
      obtain ⟨k, rfl⟩ := Nat.exists_eq_succ_of_ne_zero (Nat.one_le_iff_ne_zero.mp hk)
      rfl
    · rw [dropDot]
      rintro rest hrest
      -- a slash behind the dot is none of the name, so it is one of the run
      refine h ⟨rfl, ?_⟩
      cases cs with
      | cons c' cs =>
        simp only [List.cons_append, List.cons.injEq] at hrest
        rw [hrest.2.1] at hcs
        exact absurd List.mem_cons_self hcs
      | nil =>
        simp only [List.cons_append, List.nil_append, List.cons.injEq] at hrest
        obtain ⟨rfl, hrest⟩ := hrest
        refine ⟨hdot.mpr ⟨rfl, rfl⟩, ?_⟩
        rcases hdivided with rfl | hk
        · cases k with
          | zero => simp at hrest
          | succ k => exact Nat.succ_le_succ (Nat.zero_le k)
        · exact hk

/-- What is dropped at the end is dropped of the last stretches. -/
lemma dropLastEmpty_append {as bs : List (List Char)} (h : bs ≠ []) :
    dropLastEmpty (as ++ bs) = as ++ dropLastEmpty bs := by
  induction as with
  | nil => rfl
  | cons a as ih =>
    rw [List.cons_append, List.cons_append, ← ih, dropLastEmpty]
    intro hnil
    exact h (List.append_eq_nil_iff.mp hnil).2

lemma dropLastEmpty_replicate (n : ℕ) :
    dropLastEmpty (List.replicate (n + 1) []) = List.replicate n [] := by
  rw [List.replicate_succ', dropLastEmpty_append (by simp)]
  simp [dropLastEmpty]

/-! ## Stretches -/

lemma stretches_slashes (n : ℕ) (rest : List Char) :
    stretches (slashes n ++ rest) = List.replicate n [] ++ stretches rest := by
  induction n with
  | zero => rfl
  | succ n ih =>
    rw [slashes_succ, List.cons_append, stretches, if_pos rfl, ih]
    rfl

/-- Behind a name, each slash but the first begins an empty stretch. -/
lemma stretches_name {name : List Char} (h : '/' ∉ name) {n : ℕ} (hn : 1 ≤ n) (rest : List Char) :
    stretches (name ++ (slashes n ++ rest))
      = name :: (List.replicate (n - 1) [] ++ stretches rest) := by
  obtain ⟨m, rfl⟩ := Nat.exists_eq_succ_of_ne_zero (Nat.one_le_iff_ne_zero.mp hn)
  rw [slashes_succ, List.cons_append, stretches_append_slash, stretches_of_not_mem h,
    stretches_slashes]
  rfl

/-- **The stretches between slashes**, without an empty one at the end, are names, each with the
empty stretches behind it. -/
lemma dropLastEmpty_names {names : List (String × ℕ)} (hne : names ≠ [])
    (h : ∀ n ∈ names, IsName n.1) (hdivided : ∀ n ∈ names.dropLast, 1 ≤ n.2) :
    dropLastEmpty (stretches (namesText names))
      = (partsOf (· - 1) names).map String.toList := by
  induction names with
  | nil => exact absurd rfl hne
  | cons n names ih =>
    obtain ⟨hn, hrest⟩ := List.forall_mem_cons.mp h
    rw [namesText_cons]
    cases names with
    | nil =>
      obtain ⟨name, k⟩ := n
      cases k with
      | zero =>
        have hname : name.toList ≠ [] := mt String.toList_eq_nil_iff.mp hn.1
        simp [stretches_of_not_mem hn.2, dropLastEmpty, hname, partsOf]
      | succ k =>
        have hstretches : stretches (name.toList ++ (slashes (k + 1) ++ namesText []))
            = [name.toList] ++ List.replicate (k + 1) [] := by
          rw [stretches_name hn.2 (Nat.succ_le_succ (Nat.zero_le k)), List.replicate_succ']
          rfl
        rw [hstretches, dropLastEmpty_append (by simp), dropLastEmpty_replicate]
        simp [partsOf]
    | cons m names =>
      obtain ⟨hk, hbehind⟩ := divided_cons.mp hdivided
      replace hk : 1 ≤ n.2 := hk.resolve_left (List.cons_ne_nil m names)
      rw [stretches_name hn.2 hk, ← List.cons_append,
        dropLastEmpty_append (stretches_ne_nil _), ih (List.cons_ne_nil m names) hrest hbehind]
      simp [partsOf]

/-- The first stretch is a name, or begins with one. -/
lemma dropFirstEmpty_names {n : String × ℕ} (hn : IsName n.1) (names : List (String × ℕ)) :
    dropFirstEmpty (stretches (namesText (n :: names))) = stretches (namesText (n :: names)) := by
  rw [dropFirstEmpty]
  rintro ss hss
  obtain ⟨c, cs, hname, hc, -⟩ := exists_cons_of_isName hn
  obtain ⟨s, ss', hrest⟩ :=
    List.exists_cons_of_ne_nil (stretches_ne_nil (cs ++ (slashes n.2 ++ namesText names)))
  rw [namesText_cons, hname, List.cons_append, stretches_cons hc hrest] at hss
  cases hss

/-- **What is left of a path behind the root**: of the slashes in front each but the first is an
empty part, and so it is behind each name. -/
lemma trimmed_written {names : List (String × ℕ)} (h : ∀ n ∈ names, IsName n.1)
    (hdivided : ∀ n ∈ names.dropLast, 1 ≤ n.2) (leading : ℕ) :
    dropLastEmpty (dropFirstEmpty (stretches (written leading names)))
      = (List.replicate (leading - 1) "" ++ partsOf (· - 1) names).map String.toList := by
  rw [written, stretches_slashes]
  cases names with
  | nil =>
    -- there is one empty stretch more than there are slashes, and both ends drop one
    have hall : List.replicate leading [] ++ stretches (namesText [])
        = List.replicate (leading + 1) ([] : List Char) := by
      rw [List.replicate_succ']
      rfl
    rw [hall, List.replicate_succ, dropFirstEmpty]
    cases leading with
    | zero => rfl
    | succ n => simp [dropLastEmpty_replicate, partsOf]
  | cons n names =>
    obtain ⟨hn, -⟩ := List.forall_mem_cons.mp h
    have hnames := dropLastEmpty_names (List.cons_ne_nil n names) h hdivided
    cases leading with
    | succ k =>
      rw [List.replicate_succ, List.cons_append, dropFirstEmpty,
        dropLastEmpty_append (stretches_ne_nil _), hnames]
      simp
    | zero =>
      rw [List.replicate_zero, List.nil_append, dropFirstEmpty_names hn, hnames]
      simp

/-! ## Splitting -/

/-- Halving leaves a slash where there is one. -/
lemma one_le_halved {n : ℕ} : 1 ≤ halved n ↔ 1 ≤ n := by
  unfold halved
  omega

lemma partsOf_halved (names : List (String × ℕ)) :
    partsOf (· - 1) (names.map fun n => (n.1, halved n.2))
      = partsOf (fun slashes => halved slashes - 1) names := by
  rw [partsOf, partsOf, List.flatMap_map]

namespace Spelling

/-- **The stretches of a spelling whose runs of slashes are halved**, the dot in front dropped. -/
lemma trimmed_parts (w : Spelling) :
    dropLastEmpty (dropFirstEmpty (stretches (dropDot
      (written (halved w.leading - 1) (w.names.map fun n => (n.1, halved n.2))))))
      = w.parts.map String.toList := by
  obtain ⟨leading, names, hnames, hdivided⟩ := w
  have hproper : ∀ n ∈ names.map fun n => (n.1, halved n.2), IsName n.1 :=
    List.forall_mem_map.mpr hnames
  have hapart : ∀ n ∈ (names.map fun n => (n.1, halved n.2)).dropLast, 1 ≤ n.2 := by
    rw [← List.map_dropLast, List.forall_mem_map]
    intro n hn
    exact one_le_halved.mpr (hdivided n hn)
  cases names with
  | nil =>
    have hnone : ∀ n, dropDot (written n []) = written n [] := by
      intro n
      cases n <;> rfl
    rw [List.map_nil, hnone, trimmed_written (by simp) (by simp)]
    simp [parts, hidesDot, partsOf, Nat.sub_sub]
  | cons n names =>
    have hroot : halved leading - 1 = 0 ↔ leading ≤ 2 := by
      unfold halved
      omega
    have hdot : (halved leading - 1 = 0 ∧ n.1 = "." ∧ 1 ≤ halved n.2)
        ↔ hidesDot ⟨leading, n :: names, hnames, hdivided⟩ := by
      simp only [hidesDot, hroot, one_le_halved, Bool.and_eq_true, decide_eq_true_eq]
      tauto
    rw [List.map_cons] at hproper hapart
    obtain ⟨hbehind, hrest⟩ := divided_cons.mp hapart
    rw [List.map_cons, dropDot_written (n := (n.1, halved n.2))
      (hnames n List.mem_cons_self) hbehind, parts, ← partsOf_halved]
    split_ifs with h h' h'
    · have hfront : halved leading - 1 = 0 := h.1
      have hnone : halved leading - 2 = 0 := by omega
      rw [trimmed_written (List.forall_mem_cons.mp hproper).2 hrest, hnone]
      simp [partsOf]
    · exact absurd (hdot.mp h) h'
    · exact absurd (hdot.mpr h') h
    · rw [trimmed_written hproper hapart, Nat.sub_sub]
      rfl

/-- **A path is split into the parts of its spelling**, and starts at the root if there is a slash
in front. -/
lemma splitText_text (w : Spelling) : splitText w.text = (w.parts, decide (1 ≤ w.leading)) := by
  have hproper : ∀ n ∈ w.names.map fun n => (n.1, halved n.2), IsName n.1 :=
    List.forall_mem_map.mpr w.isName
  have habsolute :
      ((written (halved w.leading) (w.names.map fun n => (n.1, halved n.2))).head? = some '/')
      = (1 ≤ w.leading) := by
    rw [← one_le_halved, eq_iff_iff]
    cases hleading : halved w.leading with
    | zero => simpa [written] using head?_namesText hproper
    | succ n => simp [written, slashes_succ]
  have hparts : (w.parts.map String.toList).map String.ofList = w.parts := by
    simp [Function.comp_def]
  simp only [splitText, splitList, text, String.toList_ofList, collapse_written w.isName,
    dropSlash_written hproper, habsolute, trimmed_parts, hparts]

/-- The parts that are no ellipses. -/
lemma filter_partsOf (ellipses : ℕ → ℕ) {names : List (String × ℕ)} (h : ∀ n ∈ names, IsName n.1) :
    (partsOf ellipses names).filter (· ≠ "") = names.map (·.1) := by
  induction names with
  | nil => rfl
  | cons n names ih =>
    obtain ⟨hn, hrest⟩ := List.forall_mem_cons.mp h
    have hrec := ih hrest
    rw [partsOf] at hrec ⊢
    rw [List.flatMap_cons, List.filter_append, hrec]
    simp [hn.1]

/-- **No name gets lost**, but for the dot of a path that begins with a dot and a slash. -/
lemma filter_parts (w : Spelling) : w.parts.filter (· ≠ "") = w.kept := by
  obtain ⟨leading, names, hnames, hdivided⟩ := w
  have hall := filter_partsOf (fun slashes => halved slashes - 1) hnames
  rw [parts, kept, List.filter_append]
  split_ifs with h
  · cases names with
    | nil => cases h
    | cons n names =>
      obtain ⟨hn, -⟩ := List.forall_mem_cons.mp hnames
      simp only [partsOf, List.flatMap_cons, List.cons_append, List.filter_cons] at hall ⊢
      simpa [hn.1] using hall
  · rw [hall]
    simp

end Spelling

/-- **Splitting a path loses no name.**  Every path is names with runs of slashes in front and
behind them, and whatever is said about where it starts, it is split into these names: without the
dot of a path that begins with a dot and a slash, and with an ellipsis for every pair of slashes but
the first between two names, but the first two in front.  It starts at the root if there is a slash
in front. -/
theorem split_spelling :
    (∀ path, ∃ w : Spelling, w.text = path) ∧
    ∀ (w : Spelling) (absolute : Option Bool),
      (PathInput.text w.text).split absolute = .ok (w.parts, decide (1 ≤ w.leading)) ∧
      w.parts.filter (· ≠ "") = w.kept := by
  refine ⟨Spelling.exists_spelling, fun w absolute => ⟨?_, w.filter_parts⟩⟩
  rw [PathInput.split, w.splitText_text]

/-- A path with a dot in front, and slashes of which some are left over. -/
example : splitText "//.////a/////.///" = (["", "a", "", "", ".", ""], true) := by decide +kernel

end PathExpansion.PathSpec
