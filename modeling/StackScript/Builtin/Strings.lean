import StackScript.Builtin.Call
import StackScript.Builtin.Format
import StackScript.Pattern.Read
import StackScript.Template.Render
import StackScript.Text.Layout
import StackScript.Text.Case
import StackScript.Decimal.Shortest
import StackScript.Decimal.Read
import StackScript.Text.Quoted

/-!
# The package of strings

Places in a text count characters from one. A position or count beyond the text is cut to it.

Main statements: `clampTo_le` (a count never goes beyond a length).
-/
namespace StackScript.StringsFn

/-- A count between none and a length. -/
def clampTo (length : Nat) (n : Int64) : Nat := min n.toInt.toNat length

theorem clampTo_le (length : Nat) (n : Int64) : clampTo length n ≤ length := Nat.min_le_right ..

/-- A text without the characters of a set at both ends. -/
def trimSet (set text : String) : String :=
  let inSet (c : Char) : Bool := set.toList.contains c
  String.ofList ((text.toList.dropWhile inSet).reverse.dropWhile inSet).reverse

/-- Part of a text from a place counted from one. -/
def part (text : String) (start : Int64) (count : Option Int64) : String :=
  let rest := text.toList.drop (start - 1).toInt.toNat
  String.ofList (match count with
    | some n => rest.take n.toInt.toNat
    | none => rest)

/-- The parts of a text between separators, or its characters. -/
def splitParts (text separator : String) : List String :=
  if separator.isEmpty then text.toList.map String.singleton else Text.split text separator

/-- The text of a template, or of a text that is one, for a value. -/
def renderArg (c : NativeCall) : WorldM String := do
  let data := c.arg 1
  match c.arg 0 with
  | .template t => t.render data
  | .string source =>
    match Template.ofSource "inline" source with
    | .ok t => t.render data
    | .error f => throw f
  | v => NativeCall.refuseValue v

/-- The texts of the items of an array with a separator between them. -/
def joined (c : NativeCall) : WorldM String := do
  let s ← getThe Store
  match c.arg 0 with
  | .array r => pure (Text.join (← c.text 1) ((s.array r).items.toList.map (·.display s)))
  | v => NativeCall.refuseValue v

/-- A function of the package. -/
def run (f : StringsFn) (c : NativeCall) : WorldM Value := do
  match f with
  | .upper => do pure (.string (Text.toUpper (← c.text 0)))
  | .lower => do pure (.string (Text.toLower (← c.text 0)))
  | .trim =>
    let text ← c.text 0
    match c.arg? 1 with
    | some set => do pure (.string (trimSet (set.display (← getThe Store)) text))
    | none => pure (.string (Text.trim text))
  | .left =>
    let text ← c.text 0
    let n ← c.int "strings.left" 1
    pure (.string (String.ofList (text.toList.take (clampTo text.length n))))
  | .right =>
    let text ← c.text 0
    let n ← c.int "strings.right" 1
    pure (.string (String.ofList (text.toList.drop (text.length - clampTo text.length n))))
  | .substring =>
    let text ← c.text 0
    let start ← c.int "strings.substring" 1
    let count ← if 2 < c.args.length then some <$> c.int "strings.substring" 2 else pure none
    pure (.string (part text start count))
  | .index =>
    let place := Text.find? (← c.text 0) (← c.text 1)
    pure (.int (Int64.ofNat ((place.map (· + 1)).getD 0)))
  | .contains => do pure (.bool (Text.contains (← c.text 0) (← c.text 1)))
  | .split =>
    let text ← c.text 0
    let separator ← if 1 < c.args.length then c.text 1 else pure "\n"
    NativeCall.texts (splitParts text separator)
  | .join => .string <$> joined c
  | .format => do
    pure (.string (Format.format (← getThe Store) (← c.text 0) (c.args.drop 1)))
  | .length => do pure (.int (Int64.ofNat (← c.text 0).length))
  | .template => .string <$> renderArg c
  | .pattern =>
    let source ← c.text 1
    match Pattern.ofText source with
    | .ok p => do pure (.bool (p.occursIn (← c.text 0)))
    | .error r => throw (.about .argumentType (r.report source))

end StackScript.StringsFn

/-!
## The package of conversions

Numbers are read from texts, blanks around them ignored, and written to them.
-/
namespace StackScript.StrconvFn

/-- The value that was read, or the fault of a text that is none. -/
def readOr (text : String) (v : Option Value) : WorldM Value :=
  match v with
  | some v => pure v
  | none => throw (.about .invalidConversion (Text.quote text))

/-- A function of the package. -/
def run (f : StrconvFn) (c : NativeCall) : WorldM Value := do
  match f with
  | .atoi =>
    let text ← c.text 0
    readOr text ((Decimal.readInt64 (Text.trim text)).map Value.int)
  | .atof =>
    let text ← c.text 0
    readOr text ((Decimal.readFloat (Text.trim text)).map Value.float64)
  | .itoa => do pure (.string (Decimal.ofInt (← c.int "strconv.itoa" 0).toInt))
  | .ftoa =>
    let x ← c.float "strconv.ftoa" 0
    if 1 < c.args.length then
      pure (.string (Decimal.fixed x (← c.int "strconv.ftoa" 1).toInt.toNat))
    else pure (.string (Decimal.ofFloat x))

end StackScript.StrconvFn
