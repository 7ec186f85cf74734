import PathExpansion.Regex.Set
import PathExpansion.Text.Blank
import PathExpansion.Text.Identifier

/-!
# Reading a pattern

The text is read token by token.  What is under construction is a stack of levels, one for each
group that is still open, and each step either adds an item to the innermost level, changes its
last item, opens a level or closes one.  Because a step sees only the tokens it takes and the
stack, reading two texts after each other is reading the first and going on with the second, which
is what reasoning about generated patterns rests on.

* `Width` — how many characters a pattern can take, for conditions that look back.
* `Item`, `Level`, `Work` — what is under construction.
* `step` — takes one token, and those that belong to it.
* `readAll` — takes all tokens.
* `Regex.read` — the pattern that a text spells, or the problem with it.
-/

namespace PathExpansion.Regex

/-! ## Widths -/

/-- The least and the greatest number of characters that a pattern takes; `none` is unbounded. -/
structure Width where
  least : Nat
  most : Option Nat
deriving DecidableEq, Repr

namespace Width

/-- The width of what takes nothing. -/
def zero : Width := ⟨0, some 0⟩

/-- The width of one character. -/
def one : Width := ⟨1, some 1⟩

/-- One after the other. -/
def add (v w : Width) : Width := ⟨v.least + w.least, v.most.bind fun m => w.most.map (m + ·)⟩

/-- One or the other. -/
def either (v w : Width) : Width :=
  ⟨min v.least w.least, v.most.bind fun m => w.most.map (max m)⟩

/-- Between `least` and `most` times. -/
def times (least : Nat) (most : Option Nat) (w : Width) : Width :=
  ⟨w.least * least,
    if w.most = some 0 || most = some 0 then some 0 else w.most.bind fun m => most.map (m * ·)⟩

end Width

/-! ## What is under construction -/

/-- What an item is to a quantifier behind it. -/
inductive Role where
  | position
  | repetition
  | ordinary
deriving DecidableEq, Repr

/-- A piece of a sequence. -/
structure Item where
  node : Regex
  role : Role
  width : Width
deriving DecidableEq, Repr

/-- An item that consumes one character. -/
def Item.character (test : CharacterTest) : Item := ⟨.one test, .ordinary, .one⟩

/-- An item that is a condition on the position. -/
def Item.position (a : Anchor) : Item := ⟨.anchor a, .position, .zero⟩

/-- What began a level. -/
inductive Opener where
  | root
  | capture (index : Nat)
  | plain
  | atomic
  | ahead (negated : Bool)
  | behind (negated outermost : Bool)
  | condition (index : Nat)
deriving DecidableEq, Repr

/-- A group under construction: what began it, how much text was left then, the flags inside, the
alternatives that are complete and the items of the current one, both latest first. -/
structure Level where
  opener : Opener
  left : Nat
  flags : Flags
  branches : List (Regex × Width)
  items : List Item
deriving DecidableEq, Repr

namespace Level

/-- The alternative under construction. -/
def current (l : Level) : Regex × Width :=
  let items := l.items.reverse
  (sequence (items.map (·.node)), (items.map (·.width)).foldl Width.add .zero)

/-- The pattern of the level: its alternatives in order. -/
def body (l : Level) : Regex × Width :=
  match (l.current :: l.branches).reverse with
  | [] => (.empty, .zero)
  | b :: bs => (choice b.1 (bs.map (·.1)), (bs.map (·.2)).foldl Width.either b.2)

end Level

/-- Everything under construction: the innermost level, those around it, the number of the next
group, the groups that are complete with their widths, the names of groups, how many groups there
were where a look back began, the groups that conditions ask about with how much text was left
there, and the first look back that cannot be done. -/
structure Work where
  level : Level
  outer : List Level
  next : Nat
  closed : List (Nat × Width)
  names : List (List Char × Nat)
  behindFrom : Option Nat
  asked : List (Nat × Nat)
  flaw : Option Cause
deriving DecidableEq, Repr

namespace Work

/-- Nothing read yet. -/
def start (flags : Flags) (left : Nat) : Work :=
  ⟨⟨.root, left, flags, [], []⟩, [], 1, [], [], none, [], none⟩

/-- Adds an item to the innermost level. -/
def push (w : Work) (item : Item) : Work :=
  { w with level := { w.level with items := item :: w.level.items } }

/-- Completes the current alternative. -/
def bar (w : Work) : Work :=
  { w with level :=
      { w.level with branches := w.level.current :: w.level.branches, items := [] } }

/-- Opens a level. -/
def openLevel (w : Work) (opener : Opener) (left : Nat) (flags : Flags) : Work :=
  { w with level := ⟨opener, left, flags, [], []⟩, outer := w.level :: w.outer }

/-- Opens a level for the next numbered group. -/
def openCapture (w : Work) (left : Nat) : Work :=
  let opened := w.openLevel (.capture w.next) left w.level.flags
  { opened with next := w.next + 1 }

/-- The pattern of a look back, which has to take a fixed number of characters, and not too
many. -/
def lookbehind (negated : Bool) (body : Regex × Width) : Item × Option Cause :=
  let flaw :=
    if 4294967295 < body.2.least then some Cause.lookbehindTooWide
    else if body.2.most = some body.2.least then none
    else some Cause.lookbehindWidth
  (⟨.behind negated body.2.least body.1, .ordinary, .zero⟩, flaw)

/-- The two alternatives of a condition; the second may be missing. -/
def conditional (index : Nat) (l : Level) : Item :=
  match l.branches with
  | [] => ⟨.ifMatched index l.current.1 .empty, .ordinary, l.current.2.either .zero⟩
  | yes :: _ =>
    ⟨.ifMatched index yes.1 l.current.1, .ordinary, yes.2.either l.current.2⟩

/-- Closes the innermost level and adds it to the level `parent` around it, beyond which are
`outer`. -/
def closeLevel (w : Work) (parent : Level) (outer : List Level) : Work :=
  let rest := { w with level := parent, outer := outer }
  let body := w.level.body
  match w.level.opener with
  | .root | .plain => rest.push ⟨body.1, .ordinary, body.2⟩
  | .capture i =>
    { rest with closed := (i, body.2) :: w.closed }.push ⟨.capture i body.1, .ordinary, body.2⟩
  | .atomic => rest.push ⟨.atomic body.1, .ordinary, body.2⟩
  | .ahead negated => rest.push ⟨.ahead negated body.1, .ordinary, .zero⟩
  | .behind negated outermost =>
    let (item, flaw) := lookbehind negated body
    { rest with
      behindFrom := if outermost then none else w.behindFrom
      flaw := w.flaw <|> flaw }.push item
  | .condition i => rest.push (conditional i w.level)

/-- A reference to a group, checked; `left` locates the problem that the group is still open, and
`leftBehind` those that arise inside a look back. -/
def reference (w : Work) (index left leftBehind : Nat) : Except Stop Item :=
  match w.closed.lookup index with
  | none => .error (.malformed .openGroup left)
  | some width =>
    if w.behindFrom.any (· ≤ index) then .error (.malformed .groupOfSameLookbehind leftBehind)
    else .ok ⟨.reference w.level.flags.comparison index, .ordinary, width⟩

end Work

/-! ## Items -/

/-- The test for a code point; a surrogate is met by no character. -/
def codeTest (flags : Flags) (n : Nat) : CharacterTest :=
  match character? n with
  | some c => .literal flags.comparison c
  | none => .set .exact false false []

/-- The position that an escaped letter stands for. -/
def anchorOf (flags : Flags) (c : Char) : Anchor :=
  let ascii := flags.contains .ascii
  if c = 'A' then .textStart
  else if c = 'Z' then .textEnd
  else if c = 'b' then .wordBoundary ascii
  else .notWordBoundary ascii

/-- The item of an escape; `after` is what is left behind it and `size` its number of
characters. -/
def itemOfEscape (w : Work) (e : Escape) (after : List Token) (size : Nat) : Except Stop Item :=
  let flags := w.level.flags
  match e with
  | .code n => .ok (.character (codeTest flags n))
  | .category k negated =>
    .ok (.character (.set .exact (flags.contains .ascii) false [.category k negated]))
  | .anchor c => .ok (.position (anchorOf flags c))
  | .group i =>
    if i < w.next then w.reference i (widthOf after + size) (widthOf after)
    else .error (.malformed (.noSuchGroup i) (widthOf after + size - 1))

/-! ## Quantifiers -/

/-- How often something is repeated, or that a brace is just a character. -/
inductive Quantity where
  | times (least : Nat) (most : Option Nat)
  | brace
deriving DecidableEq, Repr

/-- The number of a bound; `none` if no digits are given.  The counts have to fit in 32 bits. -/
def bound (ds : List Char) : Except Stop (Option Nat) :=
  if ds = [] then .ok none
  else if 4300 < ds.length then .error (.beyond (.numeralTooLong ds.length))
  else if 4294967295 ≤ spelled 10 ds then .error (.beyond .repetitionTooLarge)
  else .ok (some (spelled 10 ds))

/-- Reads the bounds in braces from behind the opening brace.  If they are not well-formed the
brace is a character. -/
def readBounds (rest : List Token) : Except Stop (Quantity × Nat) := do
  let low := leading Char.isDigit rest.length rest
  let rest₁ := rest.drop low.length
  let comma := rest₁.head? = some (.plain ',')
  let rest₂ := if comma then rest₁.drop 1 else rest₁
  let high := if comma then leading Char.isDigit rest₂.length rest₂ else low
  let rest₃ := if comma then rest₂.drop high.length else rest₂
  if rest.head? = some (.plain '}') || rest₃.head? ≠ some (.plain '}') then return (.brace, 0)
  else
    let used := low.length + (if comma then 1 + high.length else 0) + 1
    settle (rest.drop used)
    let least ← bound low
    let most ← bound high
    if most.any (· < least.getD 0) then .error (.malformed .leastExceedsMost (widthOf rest))
    else return (.times (least.getD 0) most, used)

/-- The quantity of a quantifier and the number of tokens behind it that belong to it. -/
def readQuantity (c : Char) (rest : List Token) : Except Stop (Quantity × Nat) :=
  if c = '*' then .ok (.times 0 none, 0)
  else if c = '+' then .ok (.times 1 none, 0)
  else if c = '?' then .ok (.times 0 (some 1), 0)
  else readBounds rest

/-- The greed that a token behind a quantifier asks for, and whether it does so. -/
def greedOf (rest : List Token) : Greed × Nat :=
  match rest.head? with
  | some (.plain '?') => (.lazy, 1)
  | some (.plain '+') => (.possessive, 1)
  | _ => (.greedy, 0)

/-- Repeats the last item; `left` is the text left at the quantifier. -/
def Work.repeatLast (w : Work) (greed : Greed) (least : Nat) (most : Option Nat) (left : Nat) :
    Except Stop Work :=
  match w.level.items with
  | [] => .error (.malformed .nothingToRepeat left)
  | item :: items =>
    match item.role with
    | .position => .error (.malformed .nothingToRepeat left)
    | .repetition => .error (.malformed .multipleRepeat left)
    | .ordinary =>
      let again : Item :=
        ⟨.repeated greed least most item.node, .repetition, item.width.times least most⟩
      .ok { w with level := { w.level with items := again :: items } }

/-- Takes a quantifier, which has been taken from in front of `rest`. -/
def takeQuantifier (c : Char) (rest : List Token) (w : Work) : Except Stop (Work × Nat) := do
  let (quantity, used) ← readQuantity c rest
  match quantity with
  | .brace => return (w.push (.character (.literal w.level.flags.comparison c)), 0)
  | .times least most =>
    let (greed, more) := greedOf (rest.drop used)
    let repeated ← w.repeatLast greed least most (widthOf rest + 1)
    settle (rest.drop (used + more))
    return (repeated, used + more)

/-! ## Groups -/

/-- A name of a group has to be an identifier; `after` is what is left behind its terminator. -/
def checkName (name : List Char) (after : List Token) : Except Stop Unit :=
  if Text.isIdentifier name then .ok ()
  else .error (.malformed (.badGroupName name) (widthOf after + name.length + 1))

/-- Opens a named group; `rest` is what follows the angle bracket. -/
def takeNamed (left : Nat) (rest : List Token) (w : Work) : Except Stop (Work × Nat) := do
  let (name, used) ← readUntil '>' "group name" [] 0 rest
  let after := rest.drop used
  checkName name after
  match w.names.lookup name with
  | some old =>
    .error (.malformed (.redefinedGroup name w.next old) (widthOf after + name.length + 1))
  | none =>
    return ({ w.openCapture left with names := (name, w.next) :: w.names }, used)

/-- Takes a reference to a named group; `rest` is what follows the equals sign. -/
def takeNamedReference (rest : List Token) (w : Work) : Except Stop (Work × Nat) := do
  let (name, used) ← readUntil ')' "group name" [] 0 rest
  let after := rest.drop used
  checkName name after
  match w.names.lookup name with
  | none => .error (.malformed (.unknownGroupName name) (widthOf after + name.length + 1))
  | some index =>
    let item ← w.reference index (widthOf after + name.length + 1) (widthOf after)
    return (w.push item, used)

/-- The digits of a number that may have underscores between them. -/
def plainDigits? : List Char → Option (List Char)
  | [] => none
  | [c] => if Text.isDigit c then some [c] else none
  | c :: '_' :: rest => if Text.isDigit c then (plainDigits? rest).map (c :: ·) else none
  | c :: rest => if Text.isDigit c then (plainDigits? rest).map (c :: ·) else none

/-- The number that a text spells, blanks around it and a sign in front allowed, if it is not
negative and not too long. -/
def groupNumber? (text : List Char) : Option Nat :=
  let bare := ((text.dropWhile Text.isBlank).reverse.dropWhile Text.isBlank).reverse
  let (negative, body) : Bool × List Char := match bare with
    | '-' :: rest => (true, rest)
    | '+' :: rest => (false, rest)
    | rest => (false, rest)
  match plainDigits? body with
  | none => none
  | some ds =>
    let n := Text.numberOfDigits ds
    if 4300 < ds.length || (negative && n ≠ 0) then none else some n

/-- The group that a condition asks about, by its name or its number. -/
def conditionGroup (name : List Char) (after : List Token) (w : Work) :
    Except Stop (Nat × List (Nat × Nat)) :=
  let left := widthOf after + name.length + 1
  if Text.isIdentifier name then
    match w.names.lookup name with
    | none => .error (.malformed (.unknownGroupName name) left)
    | some index => .ok (index, w.asked)
  else
    match groupNumber? name with
    | none => .error (.malformed (.badGroupName name) left)
    | some 0 => .error (.malformed .badGroupNumber left)
    | some index =>
      if 1073741823 ≤ index then .error (.malformed (.noSuchGroup index) left)
      else
        let known := (w.asked.lookup index).isSome
        .ok (index, if known then w.asked else w.asked ++ [(index, left)])

/-- Opens a condition on a group; `rest` is what follows the inner parenthesis. -/
def takeCondition (left : Nat) (rest : List Token) (w : Work) : Except Stop (Work × Nat) := do
  let (name, used) ← readUntil ')' "group name" [] 0 rest
  let after := rest.drop used
  let (index, asked) ← conditionGroup name after w
  if w.behindFrom.isSome && (w.closed.lookup index).isNone then
    .error (.malformed .openGroup (widthOf after))
  else if w.behindFrom.any (· ≤ index) then
    .error (.malformed .groupOfSameLookbehind (widthOf after))
  else
    return ({ w with asked := asked }.openLevel (.condition index) left w.level.flags, used)

/-- The number of tokens of a comment, up to and with its closing parenthesis. -/
def commentLength (left : Nat) : List Token → Except Stop Nat
  | [] => .error (.malformed .unterminatedComment left)
  | t :: rest => do
    settle rest
    if t = .plain ')' then return 1
    else
      let n ← commentLength left rest
      return n + 1

/-- Opens a level in which one looks back. -/
def Work.openBehind (w : Work) (negated : Bool) (left : Nat) : Work :=
  let opened := w.openLevel (.behind negated w.behindFrom.isNone) left w.level.flags
  { opened with behindFrom := w.behindFrom <|> some w.next }

/-- Takes flags; for the whole pattern they are allowed only at its start. -/
def takeFlags (t : Token) (left : Nat) (rest : List Token) (w : Work) :
    Except Stop (Work × Nat) := do
  let (request, used) ← readFlags t rest
  match request with
  | .here on off => return (w.openLevel .plain left (w.level.flags.within on off), used)
  | .everywhere on =>
    if w.outer = [] && w.level.branches = [] && w.level.items = [] then
      return ({ w with level := { w.level with flags := w.level.flags ++ on } }, used)
    else .error (.malformed .lateFlags left)

/-- Takes what follows `(?P`. -/
def takeNameGroup (left : Nat) (rest : List Token) (w : Work) : Except Stop (Work × Nat) :=
  match rest with
  | [] => .error (.malformed .unexpectedEnd 0)
  | t :: rest => do
    settle rest
    if t = .plain '<' then
      let (w, used) ← takeNamed left rest w
      return (w, used + 1)
    else if t = .plain '=' then
      let (w, used) ← takeNamedReference rest w
      return (w, used + 1)
    else .error (.malformed (.unknownExtension ('P' :: t.text)) (widthOf rest + t.width + 2))

/-- Takes what follows `(?<`. -/
def takeBehind (left : Nat) (rest : List Token) (w : Work) : Except Stop (Work × Nat) :=
  match rest with
  | [] => .error (.malformed .unexpectedEnd 0)
  | t :: rest => do
    settle rest
    if t = .plain '=' then return (w.openBehind false left, 1)
    else if t = .plain '!' then return (w.openBehind true left, 1)
    else .error (.malformed (.unknownExtension ('<' :: t.text)) (widthOf rest + t.width + 2))

/-- Takes what follows `(?`. -/
def takeExtension (left : Nat) (rest : List Token) (w : Work) : Except Stop (Work × Nat) :=
  match rest with
  | [] => .error (.malformed .unexpectedEnd 0)
  | t :: rest => do
    settle rest
    let here := w.level.flags
    let (w, used) ← match t with
      | .plain 'P' => takeNameGroup left rest w
      | .plain ':' => .ok (w.openLevel .plain left here, 0)
      | .plain '#' => (commentLength left rest).map (w, ·)
      | .plain '=' => .ok (w.openLevel (.ahead false) left here, 0)
      | .plain '!' => .ok (w.openLevel (.ahead true) left here, 0)
      | .plain '<' => takeBehind left rest w
      | .plain '(' => takeCondition left rest w
      | .plain '>' => .ok (w.openLevel .atomic left here, 0)
      | _ =>
        if (Flag.ofToken? t).isSome || t = .plain '-' then takeFlags t left rest w
        else .error (.malformed (.unknownExtension t.text) (widthOf rest + t.width + 1))
    return (w, used + 1)

/-- Takes an opening parenthesis, which has been taken from in front of `rest`. -/
def takeGroup (rest : List Token) (w : Work) : Except Stop (Work × Nat) :=
  let left := widthOf rest + 1
  if rest.head? = some (.plain '?') then do
    settle (rest.drop 1)
    let (w, used) ← takeExtension left (rest.drop 1) w
    return (w, used + 1)
  else .ok (w.openCapture left, 0)

/-! ## All tokens -/

/-- The number of tokens up to and with the end of a line. -/
def lineLength : List Token → Except Stop Nat
  | [] => .ok 0
  | t :: rest => do
    settle rest
    if t = .plain '\n' then return 1
    else
      let n ← lineLength rest
      return n + 1

/-- Takes a character that has a meaning of its own, or stands for itself. -/
def takePlain (c : Char) (rest : List Token) (w : Work) : Except Stop (Work × Nat) := do
  let flags := w.level.flags
  if flags.contains .verbose && Text.isAsciiBlank c then return (w, 0)
  else if flags.contains .verbose && c = '#' then
    let n ← lineLength rest
    return (w, n)
  else if c = '[' then
    let (test, used) ← readSet flags rest
    return (w.push (.character test), used)
  else if c = '*' || c = '+' || c = '?' || c = '{' then takeQuantifier c rest w
  else if c = '.' then
    return (w.push (.character (if flags.contains .dotAll then .any else .notNewline)), 0)
  else if c = '(' then takeGroup rest w
  else if c = '^' then
    return (w.push (.position (if flags.contains .multiline then .lineStart else .textStart)), 0)
  else if c = '$' then
    return (w.push (.position (if flags.contains .multiline then .lineEnd else .lastLineEnd)), 0)
  else return (w.push (.character (.literal flags.comparison c)), 0)

/-- Takes the token `t` in front of `rest`, and answers how many tokens of `rest` belong to it. -/
def step (t : Token) (rest : List Token) (w : Work) : Except Stop (Work × Nat) :=
  if t = .plain '|' then
    match w.level.opener, w.level.branches with
    | .condition _, _ :: _ => .error (.malformed .tooManyBranches (widthOf rest + 1))
    | _, _ => do
      settle rest
      return (w.bar, 0)
  else if t = .plain ')' then
    match w.outer with
    | [] =>
      if w.level.flags.contains .ascii && w.level.flags.contains .unicode then
        .error (.beyond .asciiAndUnicode)
      else .error (.malformed .unbalancedParenthesis (widthOf rest + 1))
    | parent :: outer => do
      settle rest
      return (w.closeLevel parent outer, 0)
  else do
    settle rest
    match t with
    | .plain c => takePlain c rest w
    | .escaped c =>
      let (e, used) ← readEscape c rest
      let item ← itemOfEscape w e (rest.drop used) (used + 2)
      return (w.push item, used)
    | .dangling => .error (.malformed .escapeAtEnd 1)

/-- Takes all tokens. -/
def readAll : (ts : List Token) → Work → Except Stop Work
  | [], w => .ok w
  | t :: rest, w =>
    match step t rest w with
    | .error e => .error e
    | .ok (w, used) => readAll (rest.drop used) w
termination_by ts => ts.length
decreasing_by (simp only [List.length_drop, List.length_cons]; omega)

/-- The first repetition of a pattern, outermost first. -/
def firstRepeat? : Regex → Option Greed
  | .repeated greed _ _ _ => some greed
  | .seq r₁ r₂ | .alt r₁ r₂ | .ifMatched _ r₁ r₂ => r₁.firstRepeat? <|> r₂.firstRepeat?
  | .capture _ r | .atomic r | .ahead _ r | .behind _ _ r => r.firstRepeat?
  | .empty | .one _ | .anchor _ | .reference _ _ => none

/-- A pattern that has been read: its tree, how many groups it has, and the flags that hold for all
of it. -/
structure Reading where
  regex : Regex
  groups : Nat
  flags : Flags
deriving DecidableEq, Repr

/-- What can only be checked once everything has been read: all groups are closed, the flags agree,
the groups that conditions ask about exist, and one can look back where one has to. -/
def finish (length : Nat) (w : Work) : Except Problem Reading :=
  let flags := w.level.flags
  let regex := w.level.body.1
  if w.outer ≠ [] then
    .error (.malformed .unterminatedGroup (some (length - w.level.left)))
  else if flags.contains .ascii && flags.contains .unicode then .error (.beyond .asciiAndUnicode)
  else
    match w.asked.find? (w.next ≤ ·.1) with
    | some (index, left) => .error (.malformed (.noSuchGroup index) (some (length - left)))
    | none =>
      match if flags.contains .template then regex.firstRepeat? else none, w.flaw with
      | some greed, _ => .error (.malformed (.repeatInTemplate greed) none)
      | none, some cause => .error (.malformed cause none)
      | none, none => .ok ⟨regex, w.next - 1, flags⟩

/-- The pattern that a text spells under the given flags, or the first problem with it. -/
def read (flags : Flags) (text : List Char) : Except Problem Reading :=
  let ts := tokens text
  match settle ts >>= fun _ => readAll ts (.start flags text.length) with
  | .error stop => .error (stop.problem text.length)
  | .ok w => finish text.length w

end PathExpansion.Regex
