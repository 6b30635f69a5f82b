import StackScript.Value.Display

/-!
# Listings

The text of a unit: a title, a line for each instruction with its address, the source line where
one starts, and then the units of the functions that it pushes.

Main statements: `display_none` (an operation without an operand is its name).
-/
namespace StackScript

mutual
/-- The text of an operand. -/
def Operand.display (s : Store) : Operand → String
  | .none => ""
  | .int n => Decimal.ofInt n.toInt
  | .address target => "@" ++ Decimal.ofNat target
  | .name text => text
  | .value v => v.displayNested s
  | .tuple items => "[" ++ Operand.displayList s items ++ "]"

/-- The texts of operands with commas between them. -/
def Operand.displayList (s : Store) : List Operand → String
  | [] => ""
  | [item] => Operand.display s item
  | item :: rest => Operand.display s item ++ ", " ++ Operand.displayList s rest
end

namespace Instruction

/-- The width of the column of operations. -/
def nameWidth : Nat := 18

/-- The text of an instruction. -/
def display (s : Store) (i : Instruction) : String :=
  if i.operand.isNone then i.op.name
  else Text.padRight nameWidth i.op.name ++ " " ++ i.operand.display s

/-- The text of an instruction in a listing, where a function is shown by its name. -/
def listed (s : Store) (i : Instruction) : String :=
  match i.operand with
  | .value (.function code _) =>
    Text.padRight nameWidth i.op.name ++ " <" ++ (s.code code).name ++ ">"
  | _ => i.display s

/-- The column of source lines: filled only where a line starts. -/
def lineColumn (i : Instruction) : String :=
  if i.op == .atLine then
    Text.padLeft ' ' 4 (Decimal.ofNat (i.operand.asInt?.getD 0).toUInt64.toNat)
  else "   |"

/-- The unit of the function that an instruction pushes. -/
def pushed? (i : Instruction) : Option CodeRef :=
  match i.op, i.operand with
  | .push, .value (.function code _) => some code
  | _, _ => none

theorem display_none (s : Store) (op : Opcode) : display s ⟨op, .none⟩ = op.name := rfl

end Instruction

namespace Code

/-- An address with at least four digits. -/
def addressText (address : Nat) : String := Text.padLeft '0' 4 (Decimal.ofNat address)

/-- The title and the instructions of one unit. -/
def ownListing (s : Store) (c : Code) : String :=
  let title := (c.declaration.map Declaration.display).getD c.name
  let lines := c.instructions.toList.mapIdx fun address i =>
    addressText address ++ " " ++ i.lineColumn ++ " " ++ i.listed s ++ "\n"
  "== " ++ title ++ " (" ++ Decimal.ofNat c.size ++ " instructions) ==\n" ++ String.join lines

/-- The listing of a unit and of the functions in it, nested at most so deep. -/
def listingTo (s : Store) : (depth : Nat) → Code → String
  | 0, c => c.ownListing s
  | depth + 1, c =>
    let inner := c.instructions.toList.filterMap Instruction.pushed?
    c.ownListing s ++ String.join (inner.map fun r => "\n" ++ listingTo s depth (s.code r))

/-- The listing of a unit. A function is pushed only by units that were added after its own. -/
def listing (s : Store) (c : Code) : String := c.listingTo s s.codes.size

end Code

end StackScript
