import StackScript.Builtin.Call

/-!
# The package of mathematics

Least and greatest values keep their kinds. Sums of whole numbers are whole and wrap around;
with any other number among them the sum is a double.

Main statements: `powerTo_zero` (a power of nothing is one).
-/
namespace StackScript.MathFn

/-- The arguments as one list; a single array stands for its items. -/
def operands (s : Store) : List Value → List Value
  | [.array r] => (s.array r).items.toList
  | args => args

/-- A number as a double. -/
def numberOf (v : Value) : WorldM Float :=
  match if v.kind.isNumeric then v.asFloat? else none with
  | some x => pure x
  | none => NativeCall.refuseValue v

/-- The first of the values that none of the later ones is better than. -/
def extremeFrom (better : Float → Float → Bool) : (best : Option (Value × Float)) → List Value →
    WorldM Value
  | some (v, _), [] => pure v
  | none, [] => throw (.about .argumentCount "math.min/max")
  | best, v :: rest => do
    let x ← numberOf v
    match best with
    | some (b, y) =>
      if better x y then extremeFrom better (some (v, x)) rest
      else extremeFrom better (some (b, y)) rest
    | none => extremeFrom better (some (v, x)) rest

/-- The sum of numbers. -/
def sumOf (values : List Value) : WorldM Value := do
  if values.all (·.kind.isInteger) then
    pure (.int ((values.filterMap Value.asInt?).foldl (· + ·) 0))
  else
    let xs ← values.mapM numberOf
    pure (.float64 (xs.foldl (· + ·) 0))

/-- `result · base ^ power` by squaring; `bound` is at least the number of the power's bits. -/
def powerTo : (bound : Nat) → (result base : Float) → (power : Nat) → Float
  | 0, result, _, _ => result
  | bound + 1, result, base, power =>
    let result := if power % 2 = 1 then result * base else result
    if power / 2 = 0 then result else powerTo bound result (base * base) (power / 2)

theorem powerTo_zero (bound : Nat) (result base : Float) : powerTo bound result base 0 = result := by
  cases bound <;> simp [powerTo]

/-- A power of ten. -/
def powerOfTen (n : Int32) : Float :=
  let power := powerTo 32 1 10 n.toInt.natAbs
  if n.toInt < 0 then 1 / power else power

/-- A number rounded to decimal places, halves away from zero. -/
def roundTo (x : Float) (places : Int64) : Float :=
  let scale := powerOfTen places.toInt32
  (x * scale).round / scale

/-- The absolute value of a number; that of a whole number is an `int`. -/
def absOf (c : NativeCall) : WorldM Value := do
  match c.arg 0 with
  | .float32 x => pure (.float32 x.abs)
  | .float64 x => pure (.float64 x.abs)
  | v =>
    if v.kind.isInteger then do pure (.int (← c.int "math.abs" 0).abs)
    else NativeCall.refuseValue v

/-- A random number from zero up to one, or below a limit. -/
def randomOf (c : NativeCall) : WorldM Value := do
  if c.args.isEmpty then
    let bits ← World.draw
    pure (.float64 ((bits >>> 11).toFloat / 9007199254740992))
  else
    let limit ← c.int "math.random" 0
    if limit.toInt ≤ 0 then NativeCall.refuse "math.random"
    else
      let bits ← World.draw
      pure (.int (Int64.ofNat (bits.toNat % limit.toInt.toNat)))

/-- A function of the package. -/
def run (f : MathFn) (c : NativeCall) : WorldM Value := do
  match f with
  | .abs => absOf c
  | .min => extremeFrom (fun x y => x < y) none (operands (← getThe Store) c.args)
  | .max => extremeFrom (fun x y => y < x) none (operands (← getThe Store) c.args)
  | .sqrt => do pure (.float64 (← c.float "math.sqrt" 0).sqrt)
  | .pow => do pure (.float64 ((← c.float "math.pow" 0).pow (← c.float "math.pow" 1)))
  | .floor => do pure (.float64 (← c.float "math.floor" 0).floor)
  | .ceil => do pure (.float64 (← c.float "math.ceil" 0).ceil)
  | .round =>
    let x ← c.float "math.round" 0
    let places ← if 1 < c.args.length then c.int "math.round" 1 else pure 0
    pure (.float64 (roundTo x places))
  | .sum => sumOf (operands (← getThe Store) c.args)
  | .random => randomOf c
  | .log => do pure (.float64 (← c.float "math.log" 0).log)

end StackScript.MathFn
