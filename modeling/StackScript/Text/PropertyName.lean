import StackScript.Text.Category
import StackScript.Text.Script

/-!
# Names of properties

Properties of characters by the names that the standard gives them: binary properties, general
categories and scripts, in short or long form. Case, blanks, hyphens, underscores and a leading
`is` make no difference.

Main statements: `categoriesNamed?_letter` (a short and a long name of a category mean the same).
-/
namespace StackScript.Text

/-- Why a property cannot be asked for. -/
inductive PropertyFault where
  | unknownName
  | unknownValue
deriving Repr, DecidableEq

/-- A character of a name in the form that names are compared in. -/
def nameForm (c : Char) : Option Char :=
  if c = ' ' ∨ c = '_' ∨ c = '-' ∨ 127 < c.toNat then none else some c.toLower

/-- A name in the form that names are compared in. An abbreviation of one letter after `is` is
kept whole, because the letter alone means a category. -/
def normalizeName (name : String) : String :=
  match name.toList with
  | i :: s :: rest =>
    if i.toLower = 'i' ∧ s.toLower = 's' then
      let short := rest.filterMap nameForm
      if short = ['c'] then "isc" else String.ofList short
    else String.ofList (name.toList.filterMap nameForm)
  | cs => String.ofList (cs.filterMap nameForm)

/-- Characters of upper case: the letters, the Roman numerals and the enclosed letters. -/
def isUpperCased (c : Char) : Bool :=
  isCased c && (category c == .lu || (category c == .nl && c.toNat < 0x2170) ||
    (category c == .so && !(0x24D0 ≤ c.toNat && c.toNat ≤ 0x24E9)))

/-- Characters of lower case. -/
def isLowerCased (c : Char) : Bool := isCased c && category c != .lt && !isUpperCased c

/-- The characters that words are made of: letters, marks, digits, connecting punctuation and the
two joiners. -/
def isWordPart (c : Char) : Bool :=
  isAlphabetic c || (category c).isMark || category c == .nd || category c == .pc ||
    c.toNat == 0x200C || c.toNat == 0x200D

/-- A binary property. -/
def binaryNamed? : String → Option (Char → Bool)
  | "alphabetic" | "alpha" => some isAlphabetic
  | "uppercase" | "upper" => some isUpperCased
  | "lowercase" | "lower" => some isLowerCased
  | "whitespace" | "wspace" | "space" => some isBlank
  | "cased" => some isCased
  | "caseignorable" | "ci" => some isCaseIgnorable
  | "graphemeextend" | "grext" => some isGraphemeExtender
  | "asciihexdigit" | "ahex" => some isHexDigit
  | "joincontrol" | "joinc" => some fun c => c.toNat == 0x200C || c.toNat == 0x200D
  | _ => none

/-- The categories of a name. Surrogates are no characters. -/
def categoriesNamed? : String → Option (Category → Bool)
  | "l" | "letter" => some Category.isLetter
  | "lc" | "casedletter" => some Category.isCasedLetter
  | "m" | "mark" | "combiningmark" => some Category.isMark
  | "n" | "number" => some Category.isNumber
  | "p" | "punctuation" | "punct" => some Category.isPunctuation
  | "s" | "symbol" => some Category.isSymbol
  | "z" | "separator" => some Category.isSeparator
  | "c" | "other" => some Category.isOther
  | "lu" | "uppercaseletter" => some (· == .lu)
  | "ll" | "lowercaseletter" => some (· == .ll)
  | "lt" | "titlecaseletter" => some (· == .lt)
  | "lm" | "modifierletter" => some (· == .lm)
  | "lo" | "otherletter" => some (· == .lo)
  | "mn" | "nonspacingmark" => some (· == .mn)
  | "mc" | "spacingmark" => some (· == .mc)
  | "me" | "enclosingmark" => some (· == .me)
  | "nd" | "decimalnumber" | "digit" => some (· == .nd)
  | "nl" | "letternumber" => some (· == .nl)
  | "no" | "othernumber" => some (· == .no)
  | "pc" | "connectorpunctuation" => some (· == .pc)
  | "pd" | "dashpunctuation" => some (· == .pd)
  | "ps" | "openpunctuation" => some (· == .ps)
  | "pe" | "closepunctuation" => some (· == .pe)
  | "pi" | "initialpunctuation" => some (· == .pi)
  | "pf" | "finalpunctuation" => some (· == .pf)
  | "po" | "otherpunctuation" => some (· == .po)
  | "sm" | "mathsymbol" => some (· == .sm)
  | "sc" | "currencysymbol" => some (· == .sc)
  | "sk" | "modifiersymbol" => some (· == .sk)
  | "so" | "othersymbol" => some (· == .so)
  | "zs" | "spaceseparator" => some (· == .zs)
  | "zl" | "lineseparator" => some (· == .zl)
  | "zp" | "paragraphseparator" => some (· == .zp)
  | "cc" | "control" | "cntrl" => some (· == .cc)
  | "cf" | "format" => some (· == .cf)
  | "co" | "privateuse" => some (· == .co)
  | "cn" | "unassigned" => some (· == .cn)
  | _ => none

/-- The characters of some general categories. -/
def categoryNamed? (name : String) : Option (Char → Bool) :=
  match name with
  | "any" => some fun _ => true
  | "ascii" => some fun c => c.toNat < 128
  | "assigned" => some fun c => category c != .cn
  | _ => (categoriesNamed? name).map fun among c => among (category c)

/-- The characters of a script. -/
def scriptMembers? (name : String) : Option (Char → Bool) :=
  (scriptNamed? name).map fun n c => script c == n

/-- The property of a name alone: a binary property, a category or a script. -/
def named? (name : String) : Except PropertyFault (Char → Bool) :=
  let name := normalizeName name
  match ((binaryNamed? name).or (categoryNamed? name)).or (scriptMembers? name) with
  | some p => .ok p
  | none => .error (if name = "cs" ∨ name = "surrogate" then .unknownValue else .unknownName)

/-- Properties with values that cannot be asked for. -/
def otherProperties : List String :=
  ["age", "graphemeclusterbreak", "gcb", "wordbreak", "wb", "sentencebreak", "sb", "block", "blk"]

/-- The characters for which a property has a value. -/
def valued? (name value : String) : Except PropertyFault (Char → Bool) :=
  let value := normalizeName value
  let answer (p : Option (Char → Bool)) : Except PropertyFault (Char → Bool) :=
    p.elim (.error .unknownValue) .ok
  match normalizeName name with
  | "gc" | "generalcategory" => answer (categoryNamed? value)
  | "sc" | "script" | "scx" | "scriptextensions" => answer (scriptMembers? value)
  | name => .error (if otherProperties.contains name then .unknownValue else .unknownName)

theorem categoriesNamed?_letter :
    categoriesNamed? (normalizeName "is L") = categoriesNamed? "letter" := by
  have h : normalizeName "is L" = "l" := by decide +kernel
  rw [h]
  rfl

end StackScript.Text
