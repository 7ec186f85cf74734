import PathExpansion.Text.Quoted
import PathExpansion.Text.Decimal

/-!
# Plain data

Options arrive as plain data before anything is known about them, and the messages that refuse
them show them.  A datum has two texts: `inspect` shows its structure, `display` shows a text as
it is and everything else by its structure.

* `Datum` — absent, truth values, numbers, texts, byte strings, lists and tables.
* `Datum.truthy` — whether a datum counts as true where a truth value is wanted.
* `Datum.inspect`, `Datum.display` — the two texts.
* `Datum.isWritable` — whether its structure is short enough to be shown.
* `Datum.typeName` — the name of its kind in messages.
* `Datum.elements?` — the members that going through a datum meets.
-/

namespace PathExpansion

/-- Plain data. -/
inductive Datum where
  | nothing
  | truth (b : Bool)
  | integer (n : Int)
  | decimal (d : Text.Decimal)
  | text (s : String)
  | bytes (bs : List UInt8)
  | list (items : List Datum)
  | table (fields : List (String × Datum))

namespace Datum

/-- Truth of a datum: absence, zero, and whatever is empty count as false. -/
def truthy : Datum → Bool
  | nothing => false
  | truth b => b
  | integer n => n != 0
  | decimal d => !d.isZero
  | text s => s != ""
  | bytes bs => !bs.isEmpty
  | list items => !items.isEmpty
  | table fields => !fields.isEmpty

/-- The name of a datum's kind. -/
def typeName : Datum → String
  | nothing => "NoneType"
  | truth _ => "bool"
  | integer _ => "int"
  | decimal _ => "float"
  | text _ => "str"
  | bytes _ => "bytes"
  | list _ => "list"
  | table _ => "dict"

mutual

/-- The structure of a datum: texts quoted, lists in brackets, tables in braces. -/
def inspect : Datum → String
  | nothing => "None"
  | truth true => "True"
  | truth false => "False"
  | integer n => toString n
  | decimal d => d.text
  | text s => Text.quote s
  | bytes bs => Text.quoteBytes bs
  | list items => "[" ++ ", ".intercalate (inspectItems items) ++ "]"
  | table fields => "\x7b" ++ ", ".intercalate (inspectFields fields) ++ "\x7d"

/-- The structures of the items of a list. -/
def inspectItems : List Datum → List String
  | [] => []
  | d :: ds => inspect d :: inspectItems ds

/-- The fields of a table, each as its key and its structure. -/
def inspectFields : List (String × Datum) → List String
  | [] => []
  | (k, d) :: fs => (Text.quote k ++ ": " ++ inspect d) :: inspectFields fs

end

mutual

/-- No integer in a datum has more than 4300 digits.  One that is longer is not written out, and a
message that was to show it is not made. -/
def isWritable : Datum → Bool
  | integer n => decide ((Nat.toDigits 10 n.natAbs).length ≤ 4300)
  | list items => areWritable items
  | table fields => haveWritable fields
  | _ => true

/-- The same for the items of a list. -/
def areWritable : List Datum → Bool
  | [] => true
  | d :: ds => isWritable d && areWritable ds

/-- The same for the fields of a table. -/
def haveWritable : List (String × Datum) → Bool
  | [] => true
  | (_, d) :: fs => isWritable d && haveWritable fs

end

/-- The wording that takes the place of a message which cannot be made. -/
def tooLongText : String :=
  "Exceeds the limit (4300 digits) for integer string conversion; "
    ++ "use sys.set_int_max_str_digits() to increase the limit"

/-- The text of a datum: a text as it is, anything else by its structure. -/
def display : Datum → String
  | text s => s
  | d => inspect d

/-- The members of a datum: the items of a list, the keys of a table, the characters of a text
and the numbers of a byte string.  `none` for a datum that has no members to go through. -/
def elements? : Datum → Option (List Datum)
  | list items => some items
  | table fields => some (fields.map fun f => text f.1)
  | text s => some (s.toList.map fun c => text (String.ofList [c]))
  | bytes bs => some (bs.map fun b => integer b.toNat)
  | _ => none

/-- The text that a datum is, if it is one. -/
def text? : Datum → Option String
  | text s => some s
  | _ => none

/-- A list of data in parentheses, with a comma after a single one. -/
def inspectTuple : List Datum → String
  | [d] => "(" ++ inspect d ++ ",)"
  | ds => "(" ++ ", ".intercalate (inspectItems ds) ++ ")"

end Datum

end PathExpansion
