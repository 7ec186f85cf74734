import Mathlib.Data.List.SplitBy
import PathExpansion.Proofs.GlobLanguage
import PathExpansion.Proofs.Regex.Groups
import PathExpansion.Proofs.WholePath

/-!
# The tiles of a path

Where no glob has brackets or parentheses, a path is laid out in tiles: characters that stand for
themselves, and runs, which are the runs of question marks and of stars and the ellipses.  The
pattern of whole paths is the same tiles in a row, and each run is a group with the number that it
has among the runs.

* `Tile`, `PathSpec.tiles` — the tiles of a path.
* `Tile.nodes` — the pattern of tiles in a row.
* `Regex.Work.HasTiles` — what has been read are tiles.
* **`PathSpec.IsCompiled.exists_regex`** — the pattern of a compiled path is its tiles, between the
  ends of the text.
-/

namespace PathExpansion

/-- What a group of the pattern of whole paths stands for. -/
inductive Run where
  /-- A run of `count` question marks. -/
  | several (count : ℕ)
  /-- A run of stars. -/
  | anything
  /-- An ellipsis in front of other components. -/
  | levels
  /-- An ellipsis at the end. -/
  | rest
deriving DecidableEq, Repr

/-- A tile of a path: a character that stands for itself, or a run. -/
inductive Tile where
  | char (c : Char)
  | run (r : Run)
deriving DecidableEq, Repr

namespace Tile

/-- The tiles of a stretch of equal characters of a glob. -/
def ofStretch : (stretch : List Char) → List Tile
  | '?' :: cs => [.run (.several (cs.length + 1))]
  | '*' :: _ => [.run .anything]
  | cs => cs.map .char

/-- The tiles of a glob: those of its stretches of equal characters. -/
def ofGlob (glob : List Char) : List Tile := (glob.splitBy (· == ·)).flatMap ofStretch

/-- The runs among some tiles. -/
def runs : List Tile → List Run
  | [] => []
  | .char _ :: ts => runs ts
  | .run r :: ts => r :: runs ts

end Tile

/-- The tiles of a component. -/
def Component.tiles (last : Bool) : Component → List Tile
  | literal name _ => name.toList.map .char
  | wildcard w => Tile.ofGlob w.glob.toList
  | ellipsis => [.run (if last then .rest else .levels)]

/-- The tiles of components in a row, with a slash between them except behind an ellipsis. -/
def joinedTiles : List Component → List Tile
  | [] => []
  | [c] => c.tiles true
  | c :: cs => c.tiles false ++ (if c.isEllipsis then [] else [.char '/']) ++ joinedTiles cs

/-- The tiles of a path: the slash of the root, and those of the components. -/
def PathSpec.tiles (spec : PathSpec) : List Tile :=
  (if spec.absolute then [.char '/'] else []) ++ joinedTiles spec.components

/-! ## The pattern of tiles -/

/-- The pattern of a run. -/
def Run.regex : Run → Regex
  | several count => .repeated .greedy count (some count) (.one (.otherThan .exact '/'))
  | anything => .repeated .greedy 0 none (.one (.otherThan .exact '/'))
  | levels => Regex.chain false
  | rest => Regex.line

namespace Tile

/-- The pattern of a tile, a group of the given number if it is a run. -/
def node (index : ℕ) : Tile → Regex
  | char c => .one (.literal .exact c)
  | run r => .capture index r.regex

/-- The pattern of tiles in a row, whose groups are numbered from `next` on. -/
def nodes : (next : ℕ) → List Tile → List Regex
  | _, [] => []
  | n, .char c :: ts => node n (.char c) :: nodes n ts
  | n, .run r :: ts => node n (.run r) :: nodes (n + 1) ts

lemma runs_append (ts us : List Tile) : runs (ts ++ us) = runs ts ++ runs us := by
  induction ts with
  | nil => rfl
  | cons t ts ih =>
    cases t with
    | char c => exact ih
    | run r => exact congrArg (r :: ·) ih

lemma nodes_append (n : ℕ) (ts us : List Tile) :
    nodes n (ts ++ us) = nodes n ts ++ nodes (n + (runs ts).length) us := by
  induction ts generalizing n with
  | nil => rfl
  | cons t ts ih =>
    cases t with
    | char c => exact congrArg (node n (.char c) :: ·) (ih n)
    | run r =>
      have hlength : n + (runs (.run r :: ts)).length = n + 1 + (runs ts).length := by
        rw [runs, List.length_cons]
        omega
      rw [List.cons_append, nodes, ih, hlength]
      rfl

end Tile

/-! ## Tiles and pieces -/

namespace Glob

/-- The character is a bracket or a parenthesis. -/
def isBracket (c : Char) : Bool := c == '[' || c == ']' || c == '(' || c == ')'

lemma ne_of_isBracket {c : Char} (h : isBracket c = false) :
    c ≠ '[' ∧ c ≠ ']' ∧ c ≠ '(' ∧ c ≠ ')' := by
  simpa [isBracket, and_assoc] using h

/-- The tile of a piece that is neither a set nor a parenthesis. -/
def Piece.tiles : Piece → List Tile
  | .literal c => [.char c]
  | .several count => [.run (.several count)]
  | .anything => [.run .anything]
  | .set _ _ | .parenthesis _ => []

end Glob

namespace Tile

/-- A run of a character is a stretch of its own. -/
lemma ofGlob_run {c : Char} {rest : List Char} (hrest : rest.head? ≠ some c) (count : ℕ) :
    ofGlob (List.replicate (count + 1) c ++ rest)
      = ofStretch (List.replicate (count + 1) c) ++ ofGlob rest := by
  have hchain : (List.replicate (count + 1) c).IsChain fun x y => (x == y) = true :=
    List.isChain_replicate_of_rel (count + 1) (beq_self_eq_true c)
  have hsplit : (List.replicate (count + 1) c ++ rest).splitBy (· == ·)
      = [List.replicate (count + 1) c] ++ rest.splitBy (· == ·) := by
    rw [List.splitBy_append, List.splitBy_of_isChain (by simp) hchain]
    intro x hx y hy
    have hxc : x = c := List.eq_of_mem_replicate (List.mem_of_mem_getLast? hx)
    exact beq_eq_false_iff_ne.mpr fun hxy => hrest (by rw [← hxc, hxy]; exact hy)
  rw [ofGlob, hsplit, List.flatMap_append, List.flatMap_singleton]
  rfl

/-- A character that is no wildcard is a tile of its own. -/
lemma ofGlob_self {c : Char} (hseveral : c ≠ '?') (hanything : c ≠ '*') (cs : List Char) :
    ofGlob (c :: cs) = .char c :: ofGlob cs := by
  have hstretch : ∀ n, ofStretch (List.replicate (n + 1) c)
      = (List.replicate (n + 1) c).map .char := by
    intro n
    rw [List.replicate_succ, ofStretch]
    · exact fun _ h => hseveral (List.cons.inj h).1
    · exact fun _ h => hanything (List.cons.inj h).1
  obtain ⟨hrun, hbehind⟩ := Glob.exists_run c cs
  set count := (cs.takeWhile (· == c)).length with hcount
  set rest := cs.dropWhile (· == c) with hrest
  rw [hrun, ← List.cons_append, ← List.replicate_succ, ofGlob_run hbehind, hstretch]
  cases count with
  | zero => rfl
  | succ n =>
    rw [ofGlob_run hbehind, hstretch]
    rfl

/-- The tiles of a glob are those of its pieces. -/
lemma flatMap_pieces {glob : List Char} (hglob : ∀ c ∈ glob, Glob.isBracket c = false) :
    (Glob.pieces glob).flatMap Glob.Piece.tiles = ofGlob glob := by
  fun_induction Glob.pieces glob with
  | case1 => rfl
  | case2 c rest ih =>
    rw [List.forall_mem_cons] at hglob
    obtain ⟨hopen, -, hparenthesis⟩ := Glob.ne_of_isBracket hglob.1
    have ih := ih fun d hd => hglob.2 d ((Glob.first_sublist c rest).subset hd)
    rw [List.flatMap_cons, ih]
    by_cases hseveral : c = '?'
    · obtain ⟨hrun, hbehind⟩ := Glob.exists_run '?' rest
      rw [Glob.first, if_pos hseveral, hseveral]
      conv_rhs => rw [hrun, ← List.cons_append, ← List.replicate_succ, ofGlob_run hbehind]
      rw [List.replicate_succ, ofStretch, List.length_replicate, Glob.Piece.tiles, Nat.add_comm]
    by_cases hanything : c = '*'
    · obtain ⟨hrun, hbehind⟩ := Glob.exists_run '*' rest
      rw [Glob.first, if_neg hseveral, if_pos hanything, hanything]
      conv_rhs => rw [hrun, ← List.cons_append, ← List.replicate_succ, ofGlob_run hbehind]
      rfl
    · rw [Glob.first_of_ne hseveral hanything hopen hparenthesis, ofGlob_self hseveral hanything]
      rfl

end Tile

/-! ## Reading tiles -/

open Regex (Part Token Work Item IsTail readAll)

namespace Regex

/-- **What has been read are tiles**, behind the start of the text; the next group has the next
number. -/
structure Work.HasTiles (w : Work) (tiles : List Tile) : Prop where
  outer : w.outer = []
  branches : w.level.branches = []
  flags : w.level.flags = caseFlags false
  items : w.level.items.reverse.map (·.node) = .anchor .textStart :: Tile.nodes 1 tiles
  next : w.next = 1 + (Tile.runs tiles).length

section

variable {w : Work} {tiles : List Tile} {ts us : List Token}

lemma Work.HasTiles.char (hw : w.HasTiles tiles) (c : Char) :
    (w.push (.character (.literal .exact c))).HasTiles (tiles ++ [.char c]) where
  outer := hw.outer
  branches := hw.branches
  flags := hw.flags
  items := by
    rw [Work.push, List.reverse_cons, List.map_append, hw.items, Tile.nodes_append]
    rfl
  next := by
    rw [Tile.runs_append, show Tile.runs [.char c] = [] from rfl, List.append_nil]
    exact hw.next

/-- A group around an item is a run. -/
lemma Work.HasTiles.exists_run (hw : w.HasTiles tiles) {r : Run}
    (hts : IsTail (ts ++ .plain ')' :: us)) (hus : .dangling ∉ us)
    (hread : ∀ {w : Work}, w.level.flags = caseFlags false → ∃ item : Item, item.node = r.regex ∧
      readAll (ts ++ .plain ')' :: us) w = readAll (.plain ')' :: us) (w.push item)) :
    ∃ w', w'.HasTiles (tiles ++ [.run r]) ∧
      readAll (.plain '(' :: (ts ++ .plain ')' :: us)) w = readAll us w' := by
  have hopen := readAll_of_step_zero (step_opening hw.flags hts)
  set w₁ := w.openCapture (widthOf (ts ++ .plain ')' :: us) + 1) with hw₁
  obtain ⟨item, hitem, hinner⟩ := hread (w := w₁) hw.flags
  have hclose : readAll (.plain ')' :: us) (w₁.push item)
      = readAll us ((w₁.push item).closeLevel w.level w.outer) :=
    readAll_of_step_zero (step_closing rfl hus)
  refine ⟨(w₁.push item).closeLevel w.level w.outer,
    ⟨hw.outer, hw.branches, hw.flags, ?_, ?_⟩, hopen.trans (hinner.trans hclose)⟩
  · show ((⟨.capture w.next item.node, _, _⟩ :: w.level.items).reverse).map Item.node = _
    rw [List.reverse_cons, List.map_append, hw.items, Tile.nodes_append, hitem, hw.next]
    rfl
  · show w.next + 1 = _
    rw [Tile.runs_append, List.length_append, hw.next]
    rfl

/-- A wildcard is a group around a repeated set. -/
lemma Work.HasTiles.exists_wildcard (hw : w.HasTiles tiles) {count : Option ℕ} {r : Run}
    (hitem : (Part.repeatedSet Glob.noSlash count).item? false = some r.regex)
    (hus : .dangling ∉ us) :
    ∃ w', w'.HasTiles (tiles ++ [.run r]) ∧
      readAll ([.opening, .repeatedSet Glob.noSlash count, .closing].flatMap Part.tokens ++ us) w
        = readAll us w' := by
  have hclosing : IsTail (.plain ')' :: us) := .plain hus (by decide) (by decide)
  have hset : (Part.repeatedSet Glob.noSlash count).IsProper := Glob.isSetBody_noSlash
  have htail := isTail_tokens (List.forall_mem_singleton.mpr hset) hclosing
  rw [List.flatMap_singleton] at htail
  obtain ⟨w', hw', hread⟩ := hw.exists_run htail hus fun {w} hflags => by
    have hpart := readAll_item hset (by simp) (by simp) hflags hclosing
    rwa [hitem] at hpart
  refine ⟨w', hw', ?_⟩
  rw [← hread]
  simp [Part.tokens]

/-- The pieces of a glob without brackets and parentheses. -/
lemma Work.HasTiles.exists_pieces {ps : List Glob.Piece} {rs : List Regex} (hw : w.HasTiles tiles)
    (hset : ∀ p ∈ ps, p.isSet = false) (hsimple : ∀ p ∈ ps, p.IsSimple)
    (hrs : List.Forall₂ (fun p r => p.item? false = some r) ps rs) (hus : IsTail us) :
    ∃ w', w'.HasTiles (tiles ++ ps.flatMap Glob.Piece.tiles) ∧
      readAll ((ps.flatMap Glob.Piece.parts).flatMap Part.tokens ++ us) w = readAll us w' := by
  induction hrs generalizing w tiles with
  | nil => exact ⟨w, by rw [List.flatMap_nil, List.append_nil]; exact hw, rfl⟩
  | @cons p r ps rs hr _ ih =>
    rw [List.forall_mem_cons] at hset hsimple
    have hrest : IsTail ((ps.flatMap Glob.Piece.parts).flatMap Part.tokens ++ us) := by
      refine isTail_tokens (fun q hq => ?_) hus
      obtain ⟨p', hp', hq⟩ := List.mem_flatMap.mp hq
      exact Glob.isProper_parts (hsimple.2 p' hp') q hq
    have hfirst : ∃ w₁, w₁.HasTiles (tiles ++ p.tiles) ∧
        readAll (p.parts.flatMap Part.tokens
            ++ ((ps.flatMap Glob.Piece.parts).flatMap Part.tokens ++ us)) w
          = readAll ((ps.flatMap Glob.Piece.parts).flatMap Part.tokens ++ us) w₁ := by
      cases p with
      | literal c =>
        rw [Glob.Piece.parts, List.flatMap_singleton]
        exact ⟨_, hw.char c, readAll_char hw.flags hrest.settled c⟩
      | several count =>
        obtain ⟨r', hitem, -⟩ := Option.map_eq_some_iff.mp hr
        refine hw.exists_wildcard (r := .several count) ?_ hrest.settled
        rw [hitem, item?_several hitem]
        rfl
      | anything => exact hw.exists_wildcard (r := .anything) item?_anything hrest.settled
      | set negated body => cases hset.1
      | parenthesis c => exact hsimple.1.elim
    obtain ⟨w₁, hw₁, hread₁⟩ := hfirst
    obtain ⟨w₂, hw₂, hread₂⟩ := ih hw₁ hset.2 hsimple.2
    refine ⟨w₂, ?_, ?_⟩
    · rw [List.flatMap_cons, ← List.append_assoc]
      exact hw₂
    · rw [List.flatMap_cons, List.flatMap_append, List.append_assoc]
      exact hread₁.trans hread₂

/-- A glob without brackets and parentheses. -/
lemma Work.HasTiles.exists_glob {descent : Bool} {glob : String} {g : Wildcard}
    (hw : w.HasTiles tiles) (hg : Wildcard.compile false glob descent = .ok g)
    (hglob : ∀ c ∈ glob.toList, Glob.isBracket c = false) (hus : IsTail us) :
    ∃ w', w'.HasTiles (tiles ++ Tile.ofGlob glob.toList) ∧
      readAll (tokens (Glob.pattern glob).toList ++ us) w = readAll us w' := by
  have hparenthesis : ∀ c ∈ glob.toList, c ≠ '(' ∧ c ≠ ')' := fun c hc =>
    (Glob.ne_of_isBracket (hglob c hc)).2.2
  have hclosing : ']' ∉ glob.toList := fun h => (Glob.ne_of_isBracket (hglob ']' h)).2.1 rfl
  obtain ⟨hsimple, rs, hrs, -⟩ := Wildcard.exists_items hg hparenthesis
  rw [Glob.pattern, String.toList_ofList, Glob.tokens_pieces hsimple, ← Tile.flatMap_pieces hglob]
  exact hw.exists_pieces (Glob.isSet_eq_false hclosing) hsimple hrs hus

/-- An ellipsis in front of other components. -/
lemma Work.HasTiles.exists_ellipsis (hw : w.HasTiles tiles) (hus : IsTail us) :
    ∃ w', w'.HasTiles (tiles ++ [.run .levels]) ∧
      readAll (ellipsisTokens ++ us) w = readAll us w' := by
  have hclosing : IsTail (.plain ')' :: us) := .plain hus.settled (by decide) (by decide)
  have hchain : IsTail (chainTokens ++ .plain ')' :: us) :=
    .plain (by simpa using hus.settled) (by decide) (by decide)
  exact hw.exists_run hchain hus.settled fun hflags => readAll_chain hflags hclosing

/-- An ellipsis at the end. -/
lemma Work.HasTiles.exists_line (hw : w.HasTiles tiles) (hus : IsTail us) :
    ∃ w', w'.HasTiles (tiles ++ [.run .rest]) ∧ readAll (lineTokens ++ us) w = readAll us w' := by
  have hclosing : IsTail (.plain ')' :: us) := .plain hus.settled (by decide) (by decide)
  have hdots : IsTail ([.plain '.', .plain '*'] ++ .plain ')' :: us) :=
    .plain (by simpa using hus.settled) (by decide) (by decide)
  exact hw.exists_run hdots hus.settled fun hflags =>
    ⟨.rounds .notNewline 0 none, rfl, readAll_dots hflags hclosing⟩

lemma Work.HasTiles.exists_chars (hw : w.HasTiles tiles) (cs : List Char) (hus : IsTail us) :
    ∃ w', w'.HasTiles (tiles ++ cs.map .char) ∧
      readAll ((cs.map Part.char).flatMap Part.tokens ++ us) w = readAll us w' := by
  induction cs generalizing w tiles with
  | nil => exact ⟨w, by rw [List.map_nil, List.append_nil]; exact hw, rfl⟩
  | cons c cs ih =>
    have hrest : IsTail ((cs.map Part.char).flatMap Part.tokens ++ us) := by
      refine isTail_tokens (fun p hp => ?_) hus
      obtain ⟨d, _, rfl⟩ := List.mem_map.mp hp
      trivial
    obtain ⟨w', hw', hread⟩ := ih (hw.char c)
    refine ⟨w', by rw [List.map_cons, List.append_cons]; exact hw', ?_⟩
    rw [List.map_cons, List.flatMap_cons, List.append_assoc]
    exact (readAll_char hw.flags hrest.settled c).trans hread

end

end Regex

/-! ## Components -/

/-- The component is no glob with brackets or parentheses. -/
def Component.isUnbracketed : Component → Bool
  | wildcard w => w.glob.toList.all (!Glob.isBracket ·)
  | _ => true

section

open Regex (Token Work IsTail readAll)

variable {w : Work} {tiles : List Tile} {us : List Token} {c : Component}

/-- A component other than an ellipsis is read as its tiles. -/
lemma Component.exists_read_tiles (hc : ∃ part, Component.compile false part = .ok c)
    (hellipsis : c.isEllipsis = false) (hunbracketed : c.isUnbracketed) (last : Bool)
    (hw : w.HasTiles tiles) (hus : IsTail us) :
    ∃ w', w'.HasTiles (tiles ++ c.tiles last) ∧
      readAll (Regex.tokens c.fragment.toList ++ us) w = readAll us w' := by
  obtain ⟨part, hpart⟩ := hc
  rw [Component.compile] at hpart
  split_ifs at hpart
  · cases hpart
    cases hellipsis
  · cases hglob : Wildcard.compile false part false with
    | error problem =>
      rw [hglob] at hpart
      cases hpart
    | ok g =>
      rw [hglob] at hpart
      cases hpart
      obtain ⟨p, -, hg⟩ := bind_eq_ok.mp hglob
      cases hg
      refine hw.exists_glob hglob (fun c hc => ?_) hus
      simpa using List.all_eq_true.mp hunbracketed c hc
  · cases hpart
    have htokens : Regex.tokens (Component.literal part false).fragment.toList
        = (part.toList.map Regex.Part.char).flatMap Regex.Part.tokens := by
      rw [fragment, escape, String.toList_ofList, ← List.append_nil (escapeList part.toList),
        Glob.tokens_escapeList]
      exact List.append_nil _
    rw [htokens]
    exact hw.exists_chars part.toList hus

/-- The last component. -/
lemma exists_read_lastTiles (hc : ∃ part, Component.compile false part = .ok c)
    (hunbracketed : c.isUnbracketed) (hw : w.HasTiles tiles) (hus : IsTail us) :
    ∃ w', w'.HasTiles (tiles ++ joinedTiles [c]) ∧
      readAll (Regex.tokens (joinedFragments [c]).toList ++ us) w = readAll us w' := by
  cases hellipsis : c.isEllipsis with
  | true =>
    obtain rfl := Component.eq_ellipsis hellipsis
    rw [tokens_line]
    exact hw.exists_line hus
  | false =>
    rw [joinedFragments_singleton hellipsis]
    exact Component.exists_read_tiles hc hellipsis hunbracketed true hw hus

lemma joinedTiles_ellipsis {rest : List Component} (hrest : rest ≠ []) :
    joinedTiles (.ellipsis :: rest) = .run .levels :: joinedTiles rest := by
  obtain ⟨c', rest, rfl⟩ := List.exists_cons_of_ne_nil hrest
  rfl

lemma joinedTiles_cons (hc : c.isEllipsis = false) {rest : List Component} (hrest : rest ≠ []) :
    joinedTiles (c :: rest) = c.tiles false ++ .char '/' :: joinedTiles rest := by
  obtain ⟨c', rest, rfl⟩ := List.exists_cons_of_ne_nil hrest
  rw [joinedTiles, hc, if_neg Bool.false_ne_true, List.append_assoc]
  · rfl
  · exact fun h => List.cons_ne_nil c' rest h

/-- **Components in a row are read as their tiles.** -/
lemma exists_read_joinedTiles {components : List Component}
    (hcompiled : ∀ c ∈ components, ∃ part, Component.compile false part = .ok c)
    (hunbracketed : ∀ c ∈ components, c.isUnbracketed) (hw : w.HasTiles tiles) (hus : IsTail us) :
    ∃ w', w'.HasTiles (tiles ++ joinedTiles components) ∧
      readAll (Regex.tokens (joinedFragments components).toList ++ us) w = readAll us w' := by
  induction components generalizing w tiles with
  | nil => exact ⟨w, by rw [joinedTiles, List.append_nil]; exact hw, rfl⟩
  | cons c rest ih =>
    rw [List.forall_mem_cons] at hcompiled hunbracketed
    by_cases hrest : rest = []
    · subst hrest
      exact exists_read_lastTiles hcompiled.1 hunbracketed.1 hw hus
    have htail := isTail_joinedFragments hcompiled.2 hus
    cases hellipsis : c.isEllipsis with
    | true =>
      obtain rfl := Component.eq_ellipsis hellipsis
      rw [tokens_joinedFragments_ellipsis hrest, joinedTiles_ellipsis hrest, List.append_assoc,
        List.append_cons]
      obtain ⟨w₁, hw₁, hread₁⟩ := hw.exists_ellipsis htail
      obtain ⟨w₂, hw₂, hread₂⟩ := ih hcompiled.2 hunbracketed.2 hw₁
      exact ⟨w₂, hw₂, hread₁.trans hread₂⟩
    | false =>
      obtain ⟨part, hpart⟩ := hcompiled.1
      obtain ⟨ps, items, hwritten⟩ := Component.exists_isWritten hpart hellipsis
      have hslash : IsTail (.plain '/' :: (Regex.tokens (joinedFragments rest).toList ++ us)) :=
        .plain htail.settled (by decide) (by decide)
      rw [hwritten.tokens_joinedFragments hellipsis hrest, joinedTiles_cons hellipsis hrest,
        List.append_assoc, List.cons_append, ← List.append_assoc, List.append_cons]
      obtain ⟨w₁, hw₁, hread₁⟩ :=
        Component.exists_read_tiles hcompiled.1 hellipsis hunbracketed.1 false hw hslash
      have hread₂ := Regex.readAll_char hw₁.flags htail.settled '/'
      obtain ⟨w₃, hw₃, hread₃⟩ := ih hcompiled.2 hunbracketed.2 (hw₁.char '/')
      exact ⟨w₃, hw₃, hread₁.trans (hread₂.trans hread₃)⟩

end

/-! ## Whole paths -/

open Regex (Work) in
/-- What stands in front of the components. -/
lemma exists_read_startTiles {components : List Component} {absolute : Bool} {n : ℕ}
    (htail : Regex.IsTail (Regex.tokens (joinedFragments components).toList ++ endTokens)) :
    ∃ w : Work, w.HasTiles (if absolute then [.char '/'] else []) ∧
      Regex.readAll (Regex.tokens (wholePathSource components absolute).toList) (.start [] n)
        = Regex.readAll (Regex.tokens (joinedFragments components).toList ++ endTokens) w := by
  have hjoined : .dangling ∉ Regex.tokens (joinedFragments components).toList :=
    fun h => htail.settled (List.mem_append_left _ h)
  have hlead : .dangling ∉ (if absolute then [Regex.Token.plain '/'] else [])
      ++ (Regex.tokens (joinedFragments components).toList ++ endTokens) := by
    cases absolute <;> simpa using htail.settled
  have hflags : (Work.start [] n).level.flags = Regex.caseFlags false := rfl
  have hstart : ((Work.start [] n).push (.position .textStart)).HasTiles [] :=
    ⟨rfl, rfl, rfl, rfl, rfl⟩
  rw [tokens_wholePathSource components absolute hjoined,
    Regex.readAll_of_step_zero (Regex.step_caret hflags hlead)]
  cases absolute with
  | true => exact ⟨_, hstart.char '/', Regex.readAll_char hstart.flags htail.settled '/'⟩
  | false => exact ⟨_, hstart, rfl⟩

/-- **The pattern of a compiled path is its tiles**, and perhaps a slash, between the ends of the
text; it has a group for each run. -/
theorem PathSpec.IsCompiled.exists_regex {parts : List String} {spec : PathSpec}
    (h : spec.IsCompiled false parts) (hunbracketed : ∀ c ∈ spec.components, c.isUnbracketed) :
    spec.matcher.groups = (Tile.runs spec.tiles).length ∧
      spec.matcher.regex = Regex.sequence (.anchor .textStart ::
        (Tile.nodes 1 spec.tiles ++ [lastSlash false] ++ [.anchor .textEnd])) := by
  have hcompiled : ∀ c ∈ spec.components, ∃ part, Component.compile false part = .ok c := by
    intro c hc
    obtain ⟨part, _, hpart⟩ := h.components c hc
    exact ⟨part, hpart⟩
  obtain ⟨w, hread, -, hregex, hgroups⟩ := exists_of_compilePattern h.matcher
  obtain ⟨w₁, hw₁, hread₁⟩ :=
    exists_read_startTiles (isTail_joinedFragments hcompiled isTail_endTokens)
  obtain ⟨w₂, hw₂, hread₂⟩ := exists_read_joinedTiles hcompiled hunbracketed hw₁ isTail_endTokens
  obtain ⟨last, hlast, hread₃⟩ := readAll_endTokens hw₂.flags
  have hw := Except.ok.inj ((hread₁.trans (hread₂.trans hread₃)).symm.trans hread)
  have hitems : ((.position .textEnd :: last :: w₂.level.items : List Regex.Item).reverse).map
        (·.node)
      = .anchor .textStart ::
        (Tile.nodes 1 spec.tiles ++ [lastSlash false] ++ [.anchor .textEnd]) := by
    rw [List.reverse_cons, List.reverse_cons, List.map_append, List.map_append, hw₂.items,
      List.map_singleton, List.map_singleton, hlast]
    rfl
  refine ⟨?_, ?_⟩
  · rw [hgroups, ← hw]
    show w₂.next - 1 = _
    rw [hw₂.next, Nat.add_sub_cancel_left]
    rfl
  · rw [hregex, ← hw]
    refine (Regex.Level.body_of_branches ?_).trans (congrArg Regex.sequence hitems)
    exact hw₂.branches

end PathExpansion
