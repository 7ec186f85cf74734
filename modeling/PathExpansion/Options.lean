import PathExpansion.Listing
import PathExpansion.PathSpec.Compile
import PathExpansion.Policy
import PathExpansion.WalkOrder

/-!
# Options

A caller sets up an expansion by naming options.  Any value can be given for any option, so values
are looked at before they are used, and everything that is wrong with them is reported at once.

* `Setting` — a value that can be given for an option.
* `Options` — one value for each option.
* `Options.build` — options from values in order and values by name.
* `Options.problems` — what is wrong with the options.
* `Options.ignoreCase`, `Options.walkOrder` — two options in the form in which they are used.
* `Options.deterministic`, `Options.treeListing` — options for common uses.
-/

namespace PathExpansion

/-- Where a trace goes. -/
inductive TraceTarget where
  /-- To whoever asked for it. -/
  | observer
  /-- To the standard error output. -/
  | errorOutput
deriving DecidableEq, Repr

/-- A value that can be given for an option. -/
inductive Setting where
  | datum (d : Datum)
  | pattern (p : Pattern)
  | order (o : WalkOrder)
  | comparison (compare : PathComparison)
  | policy (p : Policy)
  | oracle (answer : Datum)
  | observer
  | reader

namespace Setting

/-- No value. -/
def nothing : Setting := datum .nothing

/-- Truth of a setting; everything but plain data counts as true. -/
def truthy : Setting → Bool
  | datum d => d.truthy
  | _ => true

/-- The value is absent. -/
def isNothing : Setting → Bool
  | datum .nothing => true
  | _ => false

/-- The truth of a value, if there is one. -/
def truth? (s : Setting) : Option Bool := if s.isNothing then none else some s.truthy

/-- The name of a setting's kind. -/
def typeName : Setting → String
  | datum d => d.typeName
  | pattern _ => "Pattern"
  | order _ => "EllipsisOrder"
  | comparison _ | oracle _ => "function"
  | policy _ => "ErrorPolicy"
  | observer => "function"
  | reader => "DirectoryReader"

/-- The name of a setting's kind, with the place it comes from if that belongs to it. -/
def fullTypeName : Setting → String
  | pattern _ => "re.Pattern"
  | s => s.typeName

/-- The structure of a setting. -/
def inspect : Setting → String
  | datum d => d.inspect
  | pattern p => p.inspect
  | order o => "<EllipsisOrder." ++ o.constant ++ ": " ++ Text.quote o.name ++ ">"
  | s => "<" ++ s.typeName ++ ">"

/-- The text of a setting. -/
def display : Setting → String
  | datum d => d.display
  | order o => "EllipsisOrder." ++ o.constant
  | s => s.inspect

/-- The members of a setting, if it can be gone through. -/
def elements? : Setting → Option (List Datum)
  | datum d => d.elements?
  | _ => none

/-- A path in any form. -/
def toPathInput : Setting → PathSpec.PathInput
  | datum .nothing => .nothing
  | datum (.text s) => .text s
  | s =>
    match s.elements? with
    | some parts => .presplit parts
    | none => .indivisible s.fullTypeName

/-- A pattern in any form. -/
def toPatternInput : Setting → PatternInput
  | datum (.text s) => .text s
  | pattern p => .compiled p
  | s => .other s.typeName

/-- The text of a setting is short enough to be shown. -/
def isWritable : Setting → Bool
  | datum d => d.isWritable
  | _ => true

/-- The order that a setting stands for. -/
def toOrder? : Setting → Option WalkOrder
  | order o => some o
  | datum (.text s) => WalkOrder.parse? s
  | _ => none

end Setting

/-- One value for each option. -/
structure Options where
  path : Setting := .nothing
  absolute : Setting := .nothing
  matching : Setting := .nothing
  derive : Setting := .nothing
  follow : Setting := .datum (.truth false)
  caseInsensitive : Setting := .nothing
  exclude : Setting := .nothing
  order : Setting := .order .normal
  sort : Setting := .datum (.truth false)
  reader : Setting := .nothing
  policy : Setting := .nothing
  caseOracle : Setting := .oracle (.truth false)
  debug : Setting := .datum (.truth false)

/-! ## Giving options -/

/-- Why options cannot be given. -/
inductive OptionError where
  | unknown (name : String)
  | repeated (name : String)
  | tooMany (count : Nat)
deriving DecidableEq, Repr

/-- The wording of the error. -/
def OptionError.message : OptionError → String
  | .unknown name => "WildcardConfig.__init__() got an unexpected keyword argument '" ++ name ++ "'"
  | .repeated name => "WildcardConfig.__init__() got multiple values for argument '" ++ name ++ "'"
  | .tooMany count =>
    "WildcardConfig.__init__() takes from 1 to 14 positional arguments but " ++ toString (count + 1)
      ++ " were given"

namespace Options

/-- The names of the options, in order, with how each is set. -/
def setters : List (String × (Options → Setting → Options)) :=
  [("path", fun o v => { o with path := v }),
    ("absolute", fun o v => { o with absolute := v }),
    ("match", fun o v => { o with matching := v }),
    ("derive", fun o v => { o with derive := v }),
    ("follow", fun o v => { o with follow := v }),
    ("case_insensitive", fun o v => { o with caseInsensitive := v }),
    ("exclude", fun o v => { o with exclude := v }),
    ("ellipsis_order", fun o v => { o with order := v }),
    ("sort", fun o v => { o with sort := v }),
    ("reader", fun o v => { o with reader := v }),
    ("error_policy", fun o v => { o with policy := v }),
    ("case_oracle", fun o v => { o with caseOracle := v }),
    ("debug", fun o v => { o with debug := v })]

/-- The names of the options. -/
def names : List String := setters.map (·.1)

/-- Sets one option by its name. -/
def set (o : Options) (name : String) (v : Setting) : Except OptionError Options :=
  match setters.lookup name with
  | none => .error (.unknown name)
  | some setter => .ok (setter o v)

/-- Options from values in order and values by name.  A value by name has to name an option that
has no value yet; `self` stands for the options themselves, which are always there. -/
def build (positional : List Setting) (named : List (String × Setting)) :
    Except OptionError Options := do
  let o := (setters.zip positional).foldl (fun o row => row.1.2 o row.2) {}
  let taken := "self" :: names.take positional.length
  let o ← named.foldlM
    (fun o row => if taken.contains row.1 then .error (.repeated row.1) else o.set row.1 row.2) o
  if setters.length < positional.length then .error (.tooMany positional.length) else return o

/-- Something that was to be gone through has no members, something was to be asked that gives no
answers, or something was to be a path that is no text; the kind of the value is named.  Or the
expansion that is set up was given as an option of its own. -/
inductive TypeProblem where
  | notIterable (typeName : String)
  | notCallable (typeName : String)
  | notPathText (typeName : String)
  | selfGiven
deriving DecidableEq, Repr

/-- The wording of the problem. -/
def TypeProblem.message : TypeProblem → String
  | .notIterable typeName => "'" ++ typeName ++ "' object is not iterable"
  | .notCallable typeName => "'" ++ typeName ++ "' object is not callable"
  | .notPathText typeName => "'" ++ typeName ++ "' object has no attribute 'rstrip'"
  | .selfGiven => "Wildcard.__init__() got multiple values for argument 'self'"

/-- Options by name, with names in order unless they say otherwise, so that results do not depend
on how directories are listed. -/
def deterministic (named : List (String × Setting)) : List (String × Setting) :=
  if (named.lookup "sort").isSome then named else ("sort", .datum (.truth true)) :: named

/-- The options that list everything below a directory, before others are added to them. -/
def treeListing (root order : Setting) : Except TypeProblem (List (String × Setting)) :=
  match root with
  | .datum (.text directory) =>
    let bare := (directory.toList.reverse.dropWhile (· == '/')).reverse
    .ok [("path", .datum (.text (String.ofList (bare ++ "///".toList)))), ("ellipsis_order", order)]
  | s => .error (.notPathText s.fullTypeName)

/-! ## Looking at options -/

/-- What can be wrong with options. -/
inductive Problem where
  | pathIsBytes
  | absoluteMissing
  | unknownOrder (text : String)
  | orderTooLong
  | badSort
  | deriveIsText
  | templateNotText
  | notAPattern (option : String)
  | badReader
  | badPolicy
  | badOracle
deriving DecidableEq, Repr

/-- The wording of a problem. -/
def Problem.message : Problem → String
  | .pathIsBytes => "path must be str, not bytes"
  | .absoluteMissing => "absolute is required when path is pre-split"
  | .unknownOrder text => "Unknown ellipsis order: " ++ text
  | .orderTooLong => Datum.tooLongText
  | .badSort => "sort must be a bool or a comparison function"
  | .deriveIsText => "derive must be a list of templates, not a string"
  | .templateNotText => "derive templates must be strings"
  | .notAPattern option => option ++ " must be a string or compiled pattern"
  | .badReader => "reader must implement DirectoryReader"
  | .badPolicy => "error_policy must implement ErrorPolicy"
  | .badOracle => "case_oracle must be callable"

/-- What is wrong with a path that is no text: bytes are no path, and for anything else it has to
be said whether it starts at the root. -/
def pathProblem? (o : Options) : Option Problem :=
  match o.path with
  | .datum .nothing | .datum (.text _) => none
  | .datum (.bytes _) => some .pathIsBytes
  | _ => if o.absolute.isNothing then some .absoluteMissing else none

/-- The problem with what is no order. -/
def Problem.ofOrder (order : Setting) : Problem :=
  if order.isWritable then .unknownOrder order.display else .orderTooLong

/-- What is wrong with an order. -/
def orderProblem? (order : Setting) : Option Problem :=
  match order.toOrder? with
  | some _ => none
  | none => some (.ofOrder order)

/-- What is wrong with the order of names. -/
def sortProblem? : Setting → Option Problem
  | .datum (.truth _) | .comparison _ => none
  | _ => some .badSort

/-- What is wrong with templates.  What cannot be gone through is not even looked at. -/
def deriveProblem? : Setting → Except TypeProblem (Option Problem)
  | .datum .nothing => .ok none
  | .datum (.text _) => .ok (some .deriveIsText)
  | s =>
    match s.elements? with
    | none => .error (.notIterable s.fullTypeName)
    | some ts =>
      .ok (if ts.all fun t => t.text?.isSome then none else some .templateNotText)

/-- What is wrong with a pattern. -/
def patternProblem? (option : String) : Setting → Option Problem
  | .datum .nothing | .datum (.text _) | .pattern _ => none
  | _ => some (.notAPattern option)

/-- What is wrong with a reader. -/
def readerProblem? : Setting → Option Problem
  | .datum .nothing | .reader => none
  | _ => some .badReader

/-- What is wrong with a policy. -/
def policyProblem? : Setting → Option Problem
  | .datum .nothing | .policy _ => none
  | _ => some .badPolicy

/-- What is wrong with an oracle. -/
def oracleProblem? : Setting → Option Problem
  | .oracle _ => none
  | _ => some .badOracle

/-- What is wrong with the options, in their order. -/
def problems (o : Options) : Except TypeProblem (List Problem) := do
  let derive ← deriveProblem? o.derive
  return (o.pathProblem?.toList ++ (orderProblem? o.order).toList ++ (sortProblem? o.sort).toList
    ++ derive.toList ++ (patternProblem? "match" o.matching).toList
    ++ (patternProblem? "exclude" o.exclude).toList ++ (readerProblem? o.reader).toList
    ++ (policyProblem? o.policy).toList ++ (oracleProblem? o.caseOracle).toList)

/-! ## Using options -/

/-- The order of walking. -/
def walkOrder (o : Options) : Except Problem WalkOrder :=
  match o.order.toOrder? with
  | some order => .ok order
  | none => .error (.ofOrder o.order)

/-- Whether case is ignored: as the option says, or else as the oracle answers. -/
def ignoreCase (o : Options) : Except TypeProblem Bool :=
  match o.caseInsensitive.truth? with
  | some b => .ok b
  | none =>
    match o.caseOracle with
    | .oracle answer => .ok answer.truthy
    | s => .error (.notCallable s.fullTypeName)

/-- Where the trace goes, if there is one. -/
def traceTarget (o : Options) : Option TraceTarget :=
  match o.debug with
  | .observer => some .observer
  | s => if s.truthy then some .errorOutput else none

end Options

end PathExpansion
