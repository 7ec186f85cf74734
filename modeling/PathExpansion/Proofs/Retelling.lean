import PathExpansion.Proofs.Tiles
import PathExpansion.Template

/-!
# Paths told by their runs

A path that the pattern of whole paths finds is its tiles: the characters of the specification, and
for each run what its group has matched.  So the template in which the tiles are written, each run
as the number of its group, tells the path again, but for a slash at its end, which is not among the
tiles.

Both halves of the argument go through the texts of the runs.  Matching splits a path into the tiles
and records the text of each run (`Tile.exists_filled`); reading the template gives the tiles back,
and filling it puts the same texts in (`Tile.exists_parseList`).

* `Tile.written` — tiles in a template.
* `Tile.filled` — tiles with texts for the runs.
* **`PathSpec.derivePaths_tiles`** — the groups of the pattern of whole paths, and what the template
  of its tiles derives from a path that it finds.
-/

namespace PathExpansion

namespace Tile

/-- Tiles in a template: each run is the number of its group, from `next` on, in braces, and a
dollar sign is doubled. -/
def written : (next : ℕ) → List Tile → List Char
  | _, [] => []
  | n, .char c :: ts => (if c = '$' then ['$', '$'] else [c]) ++ written n ts
  | n, .run _ :: ts => '$' :: '\x7b' :: (Nat.toDigits 10 n ++ '\x7d' :: written (n + 1) ts)

/-- Tiles with texts in place of the runs. -/
def filled : List Tile → (texts : List (List Char)) → List Char
  | .char c :: ts, us => c :: filled ts us
  | .run _ :: ts, u :: us => u ++ filled ts us
  | _, _ => []

/-- Texts with the numbers of their groups, from `next` on. -/
def numbered : (next : ℕ) → (texts : List (List Char)) → List (ℕ × List Char)
  | _, [] => []
  | n, u :: us => (n, u) :: numbered (n + 1) us

end Tile

/-! ## What groups record -/

namespace Tile

variable {tiles : List Tile}

lemma captures_regex (r : Run) : r.regex.captures = [] := by
  cases r <;> rfl

/-- The groups of tiles are their runs. -/
lemma flatMap_captures (n : ℕ) (tiles : List Tile) :
    (nodes n tiles).flatMap Regex.captures
      = (runs tiles).mapIdx fun i r => (i + n, r.regex) := by
  induction tiles generalizing n with
  | nil => rfl
  | cons t tiles ih =>
    cases t with
    | char c => exact ih n
    | run r =>
      have hnumbers : ∀ i, i + (n + 1) = i + 1 + n := fun i => by omega
      rw [nodes, List.flatMap_cons, node, Regex.captures, captures_regex, ih, runs,
        List.mapIdx_cons, Nat.zero_add]
      simp only [hnumbers]
      rfl

/-- **A text that tiles take is the tiles filled with texts**, which are recorded by number. -/
lemma exists_filled (tiles : List Tile) (n : ℕ) {rs : List Regex} {u : List Char}
    {record : Regex.Spot.Record} (h : (Regex.sequence (nodes n tiles ++ rs)).Records u record) :
    ∃ us v last, us.length = (runs tiles).length ∧ u = filled tiles us ++ v ∧
      record = last ++ (numbered n us).reverse ∧ (Regex.sequence rs).Records v last := by
  induction tiles generalizing n u record with
  | nil => exact ⟨[], u, record, rfl, rfl, (List.append_nil record).symm, h⟩
  | cons t tiles ih =>
    cases t with
    | char c =>
      obtain ⟨v, w, first, last, rfl, rfl, ⟨⟨d, rfl, hd⟩, rfl⟩, hw⟩ :=
        Regex.exists_of_records_cons h
      obtain ⟨us, v, last, hlength, rfl, rfl, hlast⟩ := ih n hw
      have hdc : d = c := beq_iff_eq.mp hd
      exact ⟨us, v, last, hlength, by rw [hdc]; rfl, by rw [List.append_nil], hlast⟩
    | run r =>
      obtain ⟨v, w, first, last, rfl, rfl, ⟨inner, rfl, hv⟩, hw⟩ :=
        Regex.exists_of_records_cons h
      obtain ⟨us, v', last, hlength, rfl, rfl, hlast⟩ := ih (n + 1) hw
      have hinner := hv.eq_nil (captures_regex r)
      refine ⟨v :: us, v', last, congrArg (· + 1) hlength, ?_, ?_, hlast⟩
      · rw [filled, List.append_assoc]
      · rw [hinner, numbered, List.reverse_cons, List.append_assoc]

end Tile

/-! ## Reading a template of tiles -/

lemma Text.digitValue?_of_isDigit {c : Char} (h : c.isDigit) :
    digitValue? c = some (c.toNat - 48) := by
  have hbound : c.toNat < 128 := by
    rw [Char.isDigit, Bool.and_eq_true, decide_eq_true_eq, decide_eq_true_eq] at h
    exact Nat.lt_of_le_of_lt h.2 (by decide)
  rw [digitValue?, if_pos hbound, if_pos h]

lemma Text.numberOfDigits_toDigits (n : ℕ) : numberOfDigits (Nat.toDigits 10 n) = n :=
  Regex.foldl_toDigits (fun d hd => by rw [digitValue?_of_isDigit hd, Option.getD_some]) n

namespace Template

lemma parseList_char {c : Char} (hc : c ≠ '$') (found rest : List Char) :
    parseList found (c :: rest) = parseList (c :: found) rest := by
  rw [parseList, if_neg hc]

/-- Two dollar signs stand for one. -/
lemma parseList_dollar (found rest : List Char) :
    parseList found ('$' :: '$' :: rest)
      = (parseList [] rest).map fun pieces => textPiece found ++ .text "$" :: pieces := by
  rw [parseList, if_pos rfl]
  split
  · next h => cases h
  · next h =>
    cases h
    rfl
  · next h => cases h

/-- Digits in braces behind a dollar sign are the number of a group. -/
lemma parseList_group {n : ℕ} (hn : (Nat.toDigits 10 n).length ≤ 4300) (found rest : List Char) :
    parseList found ('$' :: '{' :: (Nat.toDigits 10 n ++ '}' :: rest))
      = (parseList [] rest).map fun pieces => textPiece found ++ .group n :: pieces := by
  have hreference : reference? ('{' :: (Nat.toDigits 10 n ++ '}' :: rest))
      = some (some (Nat.toDigits 10 n), rest) := by
    have hdigits : ∀ d ∈ Nat.toDigits 10 n, Text.isDigit d = true := fun d hd => by
      rw [Text.isDigit, Text.digitValue?_of_isDigit
        (Nat.isDigit_of_mem_toDigits (by decide) (by decide) hd)]
      rfl
    have hbrace : ¬ Text.isDigit '}' = true := by decide
    have htake : (Nat.toDigits 10 n ++ '}' :: rest).takeWhile Text.isDigit
        = Nat.toDigits 10 n := by
      rw [List.takeWhile_append_of_pos hdigits, List.takeWhile_cons_of_neg hbrace, List.append_nil]
    have hdrop : (Nat.toDigits 10 n ++ '}' :: rest).dropWhile Text.isDigit = '}' :: rest := by
      rw [List.dropWhile_append_of_pos hdigits, List.dropWhile_cons_of_neg hbrace]
    obtain ⟨d, ds, hds⟩ := List.exists_cons_of_ne_nil (Nat.toDigits_ne_nil : Nat.toDigits 10 n ≠ [])
    rw [hds] at htake hdrop
    rw [hds, reference?, htake, hdrop]
    rfl
  rw [parseList, if_pos rfl]
  split
  · next h =>
    rw [hreference] at h
    cases h
  · next h =>
    rw [hreference] at h
    cases h
  · next ds after h =>
    rw [hreference] at h
    cases h
    rw [if_neg (Nat.not_lt.mpr hn), Text.numberOfDigits_toDigits]
    rfl

/-- The text of pieces of a template. -/
def filled (m : Option Match) (pieces : List TemplatePiece) : List Char :=
  pieces.flatMap fun p => (fillPiece m p).toList

lemma toList_fill (m : Option Match) (t : Template) : (fill m t).toList = filled m t.pieces := by
  rw [fill, String.toList_join, List.flatMap_map]
  rfl

lemma filled_textPiece (m : Option Match) (found : List Char) (pieces : List TemplatePiece) :
    filled m (textPiece found ++ pieces) = found.reverse ++ filled m pieces := by
  rw [textPiece]
  split_ifs with hfound
  · rw [hfound]
    rfl
  · rw [filled, List.flatMap_append, List.flatMap_singleton, fillPiece, String.toList_ofList]
    rfl

lemma group_mem_textPiece {i : ℕ} {found : List Char} {pieces : List TemplatePiece} :
    .group i ∈ textPiece found ++ pieces ↔ .group i ∈ pieces := by
  rw [textPiece]
  split_ifs <;> simp

end Template

namespace Tile

/-- A match has texts for the groups from `next` on. -/
def HasTexts (m : Match) (next : ℕ) (texts : List (List Char)) : Prop :=
  ∀ p ∈ numbered next texts, m.group? p.1 = some (String.ofList p.2)

/-- Pieces of a template behind a text that was read before: they refer to groups of runs, and are
filled as the tiles are. -/
structure AreTold (tiles : List Tile) (n : ℕ) (found : List Char) (pieces : List TemplatePiece) :
    Prop where
  groups : ∀ i, .group i ∈ pieces → i < n + (runs tiles).length
  filled : ∀ m us, us.length = (runs tiles).length → HasTexts m n us →
    Template.filled (some m) pieces = found.reverse ++ Tile.filled tiles us

section

variable {tiles : List Tile} {n : ℕ} {found : List Char} {pieces : List TemplatePiece}

lemma areTold_nil (n : ℕ) (found : List Char) : AreTold [] n found (Template.textPiece found) := by
  rw [← List.append_nil (Template.textPiece found)]
  refine ⟨fun i hi => ?_, fun m us _ _ => Template.filled_textPiece (some m) found []⟩
  exact absurd (Template.group_mem_textPiece.mp hi) List.not_mem_nil

lemma AreTold.char {c : Char} (h : AreTold tiles n (c :: found) pieces) :
    AreTold (.char c :: tiles) n found pieces := by
  refine ⟨h.groups, fun m us hlength htexts => ?_⟩
  rw [h.filled m us hlength htexts, List.reverse_cons, List.append_assoc]
  rfl

lemma AreTold.dollar (h : AreTold tiles n [] pieces) (found : List Char) :
    AreTold (.char '$' :: tiles) n found (Template.textPiece found ++ .text "$" :: pieces) := by
  refine ⟨fun i hi => h.groups i ?_, fun m us hlength htexts => ?_⟩
  · exact List.mem_of_ne_of_mem (by simp) (Template.group_mem_textPiece.mp hi)
  · have hdollar : (Template.fillPiece (some m) (.text "$")).toList = ['$'] := by
      simp [Template.fillPiece]
    rw [Template.filled_textPiece, Template.filled, List.flatMap_cons, ← Template.filled,
      h.filled m us hlength htexts, hdollar]
    rfl

lemma AreTold.run (h : AreTold tiles (n + 1) [] pieces) (r : Run) (found : List Char) :
    AreTold (.run r :: tiles) n found (Template.textPiece found ++ .group n :: pieces) := by
  have hlast : n + 1 + (runs tiles).length = n + (runs (.run r :: tiles)).length := by
    rw [runs, List.length_cons]
    omega
  refine ⟨fun i hi => ?_, fun m us hlength htexts => ?_⟩
  · rcases List.mem_cons.mp (Template.group_mem_textPiece.mp hi) with hi | hi
    · cases hi
      omega
    · rw [← hlast]
      exact h.groups i hi
  · cases us with
    | nil => cases hlength
    | cons u us =>
      obtain ⟨hfirst, hrest⟩ := List.forall_mem_cons.mp htexts
      have htail := h.filled m us (Nat.succ.inj hlength) hrest
      rw [Template.filled_textPiece, Template.filled, List.flatMap_cons, ← Template.filled, htail,
        Template.fillPiece, Option.bind_some, hfirst, Option.getD_some, String.toList_ofList]
      rfl

end

/-- **A template of tiles is read as pieces** that tell them. -/
lemma exists_parseList (tiles : List Tile) (n : ℕ) (found : List Char)
    (hdigits : ∀ i < n + (runs tiles).length, (Nat.toDigits 10 i).length ≤ 4300) :
    ∃ pieces, Template.parseList found (written n tiles) = .ok pieces ∧
      AreTold tiles n found pieces := by
  induction tiles generalizing n found with
  | nil => exact ⟨_, by rw [written, Template.parseList], areTold_nil n found⟩
  | cons t tiles ih =>
    cases t with
    | char c =>
      rw [written]
      by_cases hc : c = '$'
      · obtain ⟨pieces, hparse, htold⟩ := ih n [] hdigits
        rw [if_pos hc, hc]
        refine ⟨_, ?_, htold.dollar found⟩
        rw [List.cons_append, List.cons_append, List.nil_append, Template.parseList_dollar, hparse]
        rfl
      · obtain ⟨pieces, hparse, htold⟩ := ih n (c :: found) hdigits
        rw [if_neg hc, List.singleton_append, Template.parseList_char hc]
        exact ⟨pieces, hparse, htold.char⟩
    | run r =>
      have hlast : n + (runs (.run r :: tiles)).length = n + 1 + (runs tiles).length := by
        rw [runs, List.length_cons]
        omega
      obtain ⟨pieces, hparse, htold⟩ := ih (n + 1) [] (by rwa [← hlast])
      refine ⟨_, ?_, htold.run r found⟩
      rw [written, Template.parseList_group (hdigits n (by omega)), hparse]
      rfl

/-! ## What is recorded is told -/

lemma le_of_mem_numbered {n : ℕ} {us : List (List Char)} {p : ℕ × List Char}
    (hp : p ∈ numbered n us) : n ≤ p.1 ∧ p.1 < n + us.length := by
  induction us generalizing n with
  | nil => exact absurd hp List.not_mem_nil
  | cons u us ih =>
    rw [List.length_cons]
    rcases List.mem_cons.mp hp with rfl | hp
    · exact ⟨le_rfl, by omega⟩
    · obtain ⟨hlow, hhigh⟩ := ih hp
      omega

/-- The text of a number is recorded once. -/
lemma lookup_numbered {n : ℕ} {us : List (List Char)} {p : ℕ × List Char}
    (hp : p ∈ numbered n us) : (numbered n us).reverse.lookup p.1 = some p.2 := by
  induction us generalizing n with
  | nil => exact absurd hp List.not_mem_nil
  | cons u us ih =>
    rw [numbered, List.reverse_cons, List.lookup_append]
    rcases List.mem_cons.mp hp with rfl | hp
    · have hnone : (numbered (n + 1) us).reverse.lookup n = none := by
        rw [List.lookup_eq_none_iff]
        intro q hq
        have hne : n ≠ q.1 :=
          Nat.ne_of_lt (Nat.lt_of_succ_le (le_of_mem_numbered (List.mem_reverse.mp hq)).1)
        simpa using hne
      rw [hnone, Option.none_or, List.lookup_cons_self]
    · rw [ih hp, Option.some_or]

/-- The match whose groups have been recorded has their texts. -/
lemma hasTexts_numbered (text : String) (us : List (List Char)) :
    HasTexts ⟨text, (List.range us.length).map fun i =>
      ((numbered 1 us).reverse.lookup (i + 1)).map String.ofList⟩ 1 us := by
  intro p hp
  obtain ⟨hlow, hhigh⟩ := le_of_mem_numbered hp
  obtain ⟨i, hi⟩ := Nat.exists_eq_add_of_le' hlow
  have hlookup := lookup_numbered hp
  rw [hi] at hlookup hhigh ⊢
  have hrange : i < us.length := by omega
  rw [Match.group?, List.getElem?_map, List.getElem?_range hrange, Option.map_some, hlookup]
  rfl

lemma isPlain_nodes (n : ℕ) (tiles : List Tile) : ∀ r ∈ nodes n tiles, r.IsPlain := by
  have hrun : ∀ r : Run, r.regex.IsPlain := by
    intro r
    cases r with
    | levels => exact ⟨trivial, trivial⟩
    | _ => trivial
  induction tiles generalizing n with
  | nil => exact fun r hr => absurd hr List.not_mem_nil
  | cons t tiles ih =>
    cases t with
    | char c => exact List.forall_mem_cons.mpr ⟨trivial, ih n⟩
    | run r => exact List.forall_mem_cons.mpr ⟨hrun r, ih (n + 1)⟩

end Tile

/-- The slash at the end is there or missing. -/
lemma eq_of_takes_lastSlash {u : List Char} (h : (lastSlash false).Takes u) :
    u = [] ∨ u = ['/'] := by
  obtain ⟨v, w, rfl, hv, n, hn, hw⟩ := h
  obtain ⟨hlength, hall⟩ := Regex.rounds_one_iff.mp hw
  rw [show v = [] from hv, List.nil_append]
  have hone : n ≤ 1 := hn 1 rfl
  match w with
  | [] => exact Or.inl rfl
  | [c] => exact Or.inr (congrArg (fun c => [c]) (beq_iff_eq.mp (hall c List.mem_cons_self)))
  | c :: d :: w =>
    simp only [List.length_cons] at hlength
    omega

/-- A template fits a pattern that has all groups it refers to. -/
lemma missingGroup?_eq_none {source : String} {pieces : List TemplatePiece} {matcher : Pattern}
    (h : ∀ i, .group i ∈ pieces → i ≤ matcher.groups) :
    missingGroup? [⟨source, pieces⟩] matcher = none := by
  have hbeyond : Template.firstBeyond? matcher.groups ⟨source, pieces⟩ = none := by
    rw [Template.firstBeyond?, List.findSome?_eq_none_iff]
    intro piece hpiece
    cases piece with
    | text s => rfl
    | group i => exact if_neg (Nat.not_lt.mpr (h i hpiece))
  rw [missingGroup?, List.findSome?_cons, hbeyond]
  rfl

namespace PathSpec

variable {follow : Bool} {path : PathInput} {absolute : Option Bool} {spec : PathSpec}

/-- **The template of the tiles tells a path again** that the pattern of the tiles finds. -/
lemma exists_template (hgroups : spec.matcher.groups = (Tile.runs spec.tiles).length)
    (hregex : spec.matcher.regex = Regex.sequence (.anchor .textStart ::
      (Tile.nodes 1 spec.tiles ++ [lastSlash false] ++ [.anchor .textEnd])))
    (hdigits : (Nat.toDigits 10 spec.matcher.groups).length ≤ 4300) :
    ∃ t, Template.parse (String.ofList (Tile.written 1 spec.tiles)) = .ok t ∧
      ∀ p, spec.matcher.finds p →
        ∃ q, derivePaths [t] spec.matcher p = .ok [p, q] ∧ (q = p ∨ q ++ "/" = p) := by
  have hless : ∀ i < 1 + (Tile.runs spec.tiles).length, (Nat.toDigits 10 i).length ≤ 4300 := by
    rw [Nat.length_toDigits_le_iff (by decide) (by decide), hgroups] at hdigits
    intro i hi
    rw [Nat.length_toDigits_le_iff (by decide) (by decide)]
    exact Nat.lt_of_le_of_lt (Nat.le_of_lt_add_one (by omega)) hdigits
  obtain ⟨pieces, hparse, htold⟩ := Tile.exists_parseList spec.tiles 1 [] hless
  set source := String.ofList (Tile.written 1 spec.tiles) with hsource
  refine ⟨⟨source, pieces⟩, by rw [Template.parse, hsource, String.toList_ofList, hparse],
    fun p hp => ?_⟩
  have hplain : (Regex.sequence (Tile.nodes 1 spec.tiles ++ [lastSlash false])).IsPlain := by
    refine Regex.isPlain_sequence fun r hr => ?_
    rcases List.mem_append.mp hr with hr | hr
    · exact Tile.isPlain_nodes 1 spec.tiles r hr
    · rw [List.mem_singleton.mp hr]
      trivial
  obtain ⟨record, hrecords, hsearch⟩ := Pattern.exists_records hregex hplain hp
  obtain ⟨us, v, last, hlength, htext, rfl, hlast⟩ := Tile.exists_filled spec.tiles 1 hrecords
  have hnone : last = [] := hlast.eq_nil rfl
  rw [hnone, List.nil_append, hgroups, ← hlength] at hsearch
  set m : Match := ⟨p, (List.range us.length).map fun i =>
    ((Tile.numbered 1 us).reverse.lookup (i + 1)).map String.ofList⟩ with hm
  have hfill : Template.fill (some m) ⟨source, pieces⟩
      = String.ofList (Tile.filled spec.tiles us) := by
    rw [← String.toList_inj, Template.toList_fill, String.toList_ofList,
      htold.filled m us hlength (Tile.hasTexts_numbered p us)]
    rfl
  have hfits : missingGroup? [⟨source, pieces⟩] spec.matcher = none :=
    missingGroup?_eq_none fun i hi => by
      have := htold.groups i hi
      omega
  refine ⟨String.ofList (Tile.filled spec.tiles us), ?_, ?_⟩
  · rw [derivePaths, hfits, hsearch, List.map_singleton, hfill]
  · rcases eq_of_takes_lastSlash hlast.takes with rfl | rfl
    · refine Or.inl ?_
      rw [← String.toList_inj, String.toList_ofList, htext, List.append_nil]
    · refine Or.inr ?_
      rw [← String.toList_inj, String.toList_append, String.toList_ofList, htext]
      simp

/-- **The groups of the pattern of whole paths are the runs**, and the template in which the tiles
are written, each run as the number of its group, derives from a path that the pattern finds that
path, or the path without the slash at its end.  A number of more than 4300 digits cannot be
read. -/
theorem derivePaths_tiles (h : compile false path absolute none follow = .ok spec)
    (hunbracketed : ∀ c ∈ spec.components, c.isUnbracketed) :
    spec.matcher.groups = (Tile.runs spec.tiles).length ∧
      spec.matcher.regex.captures = (Tile.runs spec.tiles).mapIdx (fun i r => (i + 1, r.regex)) ∧
      ((Nat.toDigits 10 spec.matcher.groups).length ≤ 4300 →
        ∃ t, Template.parse (String.ofList (Tile.written 1 spec.tiles)) = .ok t ∧
          ∀ p, spec.matcher.finds p →
            ∃ q, derivePaths [t] spec.matcher p = .ok [p, q] ∧ (q = p ∨ q ++ "/" = p)) := by
  obtain ⟨parts, -, hcompiled⟩ := exists_parts_of_compile h
  obtain ⟨hgroups, hregex⟩ := hcompiled.exists_regex hunbracketed
  refine ⟨hgroups, ?_, fun hdigits => ?_⟩
  · rw [hregex, Regex.captures_sequence, List.flatMap_cons, List.flatMap_append,
      List.flatMap_append, Tile.flatMap_captures]
    simp [Regex.captures, lastSlash]
  · exact exists_template hgroups hregex hdigits

/-- A dollar sign among the characters, runs of both wildcards, an ellipsis in the middle and one at
the end, and the root in front. -/
theorem derivePaths_tiles_root :
    ∃ spec, compile false (.text "/a$?*///x??///") none none true = .ok spec ∧
      spec.matcher.finds "/a$bc/d/e/xyz/f/" ∧
      ∃ t, Template.parse "/a$$$\x7b1\x7d$\x7b2\x7d/$\x7b3\x7dx$\x7b4\x7d/$\x7b5\x7d" = .ok t ∧
        ∃ q, derivePaths [t] spec.matcher "/a$bc/d/e/xyz/f/" = .ok ["/a$bc/d/e/xyz/f/", q] ∧
          (q = "/a$bc/d/e/xyz/f/" ∨ q ++ "/" = "/a$bc/d/e/xyz/f/") := by
  obtain ⟨spec, hspec, htest⟩ := exists_compile false true (.text "/a$?*///x??///") none
    (fun spec => decide (spec.matcher.groups = 5 ∧ String.ofList (Tile.written 1 spec.tiles)
        = "/a$$$\x7b1\x7d$\x7b2\x7d/$\x7b3\x7dx$\x7b4\x7d/$\x7b5\x7d" ∧
      spec.matcher.finds "/a$bc/d/e/xyz/f/" ∧ ∀ c ∈ spec.components, c.isUnbracketed))
    (by decide +kernel)
  obtain ⟨hgroups, hwritten, hfinds, hunbracketed⟩ := of_decide_eq_true htest
  obtain ⟨-, -, htemplate⟩ := derivePaths_tiles hspec hunbracketed
  obtain ⟨t, hparse, htold⟩ := htemplate (by rw [hgroups]; decide)
  rw [hwritten] at hparse
  exact ⟨spec, hspec, hfinds, t, hparse, htold _ hfinds⟩

end PathSpec

end PathExpansion
