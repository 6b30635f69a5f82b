import StackScript.Kind

/-!
# Builtins

The functions that every program finds at its root, and the methods of values that are not
structs: their names, how many arguments they take, and how they report failures.

Main statements: `Native.ofName?_name` (a builtin that is found by a name has it).
-/
namespace StackScript

/-- Functions bound at the root under a name of their own. -/
inductive RootFn where
  | len | append | delete | new | make | typeof | index | close | sort
  /-- Launch a goroutine. -/
  | go
  /-- The keys that a `range` loop walks. -/
  | rangeKeys
  /-- Bind a name at the root. -/
  | setGlobal
deriving Repr, DecidableEq

/-- The package `strings`. -/
inductive StringsFn where
  | upper | lower | trim | left | right | substring | index | contains | split | join | format
  | length | template | pattern
deriving Repr, DecidableEq

/-- The package `math`. -/
inductive MathFn where
  | abs | min | max | sqrt | pow | floor | ceil | round | sum | random | log
deriving Repr, DecidableEq

/-- The package `time`. -/
inductive TimeFn where
  | now | unix | sleep | since | format
deriving Repr, DecidableEq

/-- The package `profile`. -/
inductive ProfileFn where
  | get | set | delete | has | keys
deriving Repr, DecidableEq

/-- The package `json`. -/
inductive JsonFn where
  | marshal | unmarshal
deriving Repr, DecidableEq

/-- The package `strconv`. -/
inductive StrconvFn where
  | atoi | atof | itoa | ftoa
deriving Repr, DecidableEq

/-- The package `os`. -/
inductive OsFn where
  | getenv | args | exit
deriving Repr, DecidableEq

/-- The package `util`. -/
inductive UtilFn where
  | eval | symbols
deriving Repr, DecidableEq

/-- Methods of wait groups, mutexes, channels and errors. -/
inductive Method where
  | add | done | wait
  | lock | unlock
  | send | receive | close | len
  | message | unwrap
deriving Repr, DecidableEq

/-- A builtin function. -/
inductive Native where
  | root (f : RootFn)
  | strings (f : StringsFn)
  | math (f : MathFn)
  | time (f : TimeFn)
  | profile (f : ProfileFn)
  | json (f : JsonFn)
  /-- The constructor of errors in the package `errors`. -/
  | newError
  | strconv (f : StrconvFn)
  | os (f : OsFn)
  | util (f : UtilFn)
  /-- A method under its capitalised or its lower-case spelling. -/
  | method (m : Method) (capital : Bool)
deriving Repr, DecidableEq

/-- The kind of the receiver of a method. -/
def Method.kind : Method → Kind
  | add | done | wait => .waitGroup
  | lock | unlock => .mutex
  | send | receive | close | len => .channel
  | message | unwrap => .error

/-- The name of a method under one of its spellings. -/
def Method.spelling (m : Method) (capital : Bool) : String :=
  match m, capital with
  | add, true => "Add"
  | add, false => "add"
  | done, true => "Done"
  | done, false => "done"
  | wait, true => "Wait"
  | wait, false => "wait"
  | lock, true => "Lock"
  | lock, false => "lock"
  | unlock, true => "Unlock"
  | unlock, false => "unlock"
  | send, true => "Send"
  | send, false => "send"
  | receive, true => "Receive"
  | receive, false => "receive"
  | close, _ => "close"
  | len, _ => "len"
  | message, true => "Error"
  | message, false => "error"
  | unwrap, _ => "Unwrap"

/-- The number of arguments of a method. -/
def Method.arity : Method → Nat
  | add | send => 1
  | _ => 0

/-- The methods with the spellings under which they are found. -/
def Method.all : List (Method × Bool) :=
  [(add, true), (add, false), (done, true), (done, false), (wait, true), (wait, false),
   (lock, true), (lock, false), (unlock, true), (unlock, false), (send, true), (send, false),
   (receive, true), (receive, false), (close, false), (len, false), (message, true),
   (message, false), (unwrap, true)]

namespace Native

/-- The name of a builtin, with its package or the kind of its receiver. -/
def name : Native → String
  | root f =>
    match f with
    | .len => "len"
    | .append => "append"
    | .delete => "delete"
    | .new => "new"
    | .make => "make"
    | .typeof => "typeof"
    | .index => "index"
    | .close => "close"
    | .sort => "sort"
    | .go => "$go"
    | .rangeKeys => "$rangekeys"
    | .setGlobal => "$global"
  | strings f =>
    match f with
    | .upper => "strings.upper"
    | .lower => "strings.lower"
    | .trim => "strings.trim"
    | .left => "strings.left"
    | .right => "strings.right"
    | .substring => "strings.substring"
    | .index => "strings.index"
    | .contains => "strings.contains"
    | .split => "strings.split"
    | .join => "strings.join"
    | .format => "strings.format"
    | .length => "strings.length"
    | .template => "strings.template"
    | .pattern => "strings.matches"
  | math f =>
    match f with
    | .abs => "math.abs"
    | .min => "math.min"
    | .max => "math.max"
    | .sqrt => "math.sqrt"
    | .pow => "math.pow"
    | .floor => "math.floor"
    | .ceil => "math.ceil"
    | .round => "math.round"
    | .sum => "math.sum"
    | .random => "math.random"
    | .log => "math.log"
  | time f =>
    match f with
    | .now => "time.now"
    | .unix => "time.unix"
    | .sleep => "time.sleep"
    | .since => "time.since"
    | .format => "time.format"
  | profile f =>
    match f with
    | .get => "profile.get"
    | .set => "profile.set"
    | .delete => "profile.delete"
    | .has => "profile.exists"
    | .keys => "profile.keys"
  | json f =>
    match f with
    | .marshal => "json.marshal"
    | .unmarshal => "json.unmarshal"
  | newError => "errors.new"
  | strconv f =>
    match f with
    | .atoi => "strconv.atoi"
    | .atof => "strconv.atof"
    | .itoa => "strconv.itoa"
    | .ftoa => "strconv.ftoa"
  | os f =>
    match f with
    | .getenv => "os.getenv"
    | .args => "os.args"
    | .exit => "os.exit"
  | util f =>
    match f with
    | .eval => "util.eval"
    | .symbols => "util.symbols"
  | method m capital => m.kind.name ++ "." ++ m.spelling capital

/-- The least number of arguments, and the greatest if there is one. -/
def arity : Native → Nat × Option Nat
  | root f =>
    match f with
    | .len | .new | .typeof | .close | .rangeKeys => (1, some 1)
    | .append | .go => (1, none)
    | .delete | .index | .setGlobal => (2, some 2)
    | .make | .sort => (1, some 2)
  | strings f =>
    match f with
    | .upper | .lower | .length => (1, some 1)
    | .trim | .split | .join | .template => (1, some 2)
    | .left | .right | .index | .contains | .pattern => (2, some 2)
    | .substring => (2, some 3)
    | .format => (1, none)
  | math f =>
    match f with
    | .abs | .sqrt | .floor | .ceil | .log => (1, some 1)
    | .min | .max => (1, none)
    | .pow => (2, some 2)
    | .round => (1, some 2)
    | .sum => (0, none)
    | .random => (0, some 1)
  | time f =>
    match f with
    | .now | .unix => (0, some 0)
    | .sleep | .since => (1, some 1)
    | .format => (1, some 2)
  | profile f =>
    match f with
    | .get | .delete | .has => (1, some 1)
    | .set => (2, some 2)
    | .keys => (0, some 0)
  | json _ => (1, some 2)
  | newError => (1, some 1)
  | strconv f =>
    match f with
    | .atoi | .atof | .itoa => (1, some 1)
    | .ftoa => (1, some 2)
  | os f =>
    match f with
    | .getenv => (1, some 1)
    | .args => (0, some 0)
    | .exit => (0, some 1)
  | util f =>
    match f with
    | .eval => (1, some 1)
    | .symbols => (0, some 0)
  | method m _ => (m.arity, some m.arity)

/-- Whether a failure becomes a second result instead of ending the caller. -/
def returnsError : Native → Bool
  | json _ | strconv .atoi | strconv .atof | util .eval => true
  | _ => false

/-- Whether the function sees the names of its caller. -/
def seesCaller : Native → Bool
  | util _ => true
  | _ => false

/-- Whether a number of arguments is accepted. -/
def accepts (f : Native) (count : Nat) : Bool :=
  f.arity.1 ≤ count && (f.arity.2.map fun most => decide (count ≤ most)).getD true

/-- The functions bound at the root, in the order of their registration. -/
def rootFunctions : List Native :=
  [.len, .append, .delete, .new, .make, .typeof, .index, .close, .sort, .go, .rangeKeys,
   .setGlobal].map .root

/-- The functions of the packages, in the order of their registration. -/
def packageFunctions : List Native :=
  [StringsFn.upper, .lower, .trim, .left, .right, .substring, .index, .contains, .split, .join,
    .format, .length, .template, .pattern].map .strings ++
  [MathFn.abs, .min, .max, .sqrt, .pow, .floor, .ceil, .round, .sum, .random, .log].map .math ++
  [TimeFn.now, .unix, .sleep, .since, .format].map .time ++
  [ProfileFn.get, .set, .delete, .has, .keys].map .profile ++
  [JsonFn.marshal, .unmarshal].map .json ++
  [.newError] ++
  [StrconvFn.atoi, .atof, .itoa, .ftoa].map .strconv ++
  [OsFn.getenv, .args, .exit].map .os ++
  [UtilFn.eval, .symbols].map .util

/-- The methods under all their spellings. -/
def methods : List Native := Method.all.map fun (m, capital) => .method m capital

/-- Every builtin. -/
def all : List Native := rootFunctions ++ packageFunctions ++ methods

/-- A function at the root or in a package by its name. -/
def ofName? (name : String) : Option Native :=
  (rootFunctions ++ packageFunctions).find? (·.name == name)

/-- The method of a kind of values under one of its spellings. -/
def method? (kind : Kind) (spelling : String) : Option Native :=
  (Method.all.find? fun (m, capital) => m.kind == kind && m.spelling capital == spelling).map
    fun (m, capital) => .method m capital

/-- Packages that exist without a source file. -/
def packages : List String :=
  ["errors", "json", "math", "os", "profile", "strconv", "strings", "sync", "time", "util"]

/-- Whether a name is that of a package without a source file. -/
def isPackage (name : String) : Bool := packages.contains name

theorem ofName?_name {name : String} {f : Native} (h : ofName? name = some f) : f.name = name := by
  have := List.find?_some h
  simpa using this

end Native

end StackScript
