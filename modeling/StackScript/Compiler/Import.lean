import StackScript.Compiler.Declaration

/-!
# Packages and imports

A builtin package is bound at the root already, so that importing it matters only when its names
are to be spread into the scope. Any other package is a source file; it is compiled into a
function that runs the file in a scope of its own and returns a struct of what it declared.
-/
namespace StackScript.CompileM

/-- The ending of source files. -/
def sourceExtension : String := "tern"

/-- Name the package of this source. -/
def packageStatement : CompileM Unit := do
  moveCursor Token.Cursor.skip
  let name ← identifier
  modify fun c => { c with package := some name }

/-- The path of an import with the ending of its file. -/
def importFile (path : String) : String :=
  if (FilePath.extension? path).isSome then path else path ++ "." ++ sourceExtension

/-- The first file that a path of an import can mean. -/
def findImport (c : Compiler) (path : String) : Option String :=
  let file := importFile path
  if FilePath.isAbsolute file then if c.files.isFile file then some file else none
  else
    ((c.baseDirectory.toList ++ c.importPath).map (FilePath.join · file)).find? c.files.isFile

/-- The path of an import and the name that it gives to the package. -/
def importPath : CompileM (String × String) := do
  let t ← current
  let path ← match t.tag with
    | .string => pure t.spelling
    | .identifier => spell t
    | _ => fail .invalidImport
  match (FilePath.stem? path).filter (· != "") with
  | some name => pure (path, name)
  | none => fail .invalidImport

/-- Push the struct that a package makes of its exports. -/
def emitPackage (rules : Nested) (path name : String) : CompileM Unit := do
  let c ← get
  match findImport c path with
  | none =>
    back 1
    failAbout .packageNotFound path
  | some file =>
    match c.files.read file with
    | .error e => failAbout .packageNotFound (file ++ ": " ++ e.text)
    | .ok source =>
      let code ← rules.package name source (FilePath.parent? file)
      emitValue (.function code none)
      emitCall 0 {}

/-- Bind a package to its name, over an earlier one of the same name. -/
def bindPackage (name : String) : CompileM Unit := do
  if ← isDeclaredHere name then emitName .store name else createAndStore name

/-- Import one package; a point before it spreads its names. -/
def importSpec (rules : Nested) : CompileM Unit := do
  let spread ← accept "."
  let (path, name) ← importPath
  moveCursor Token.Cursor.skip
  let known := (← get).imported.contains name
  modify fun c => { c with imported := name :: c.imported }
  if known && !spread then pure ()
  else if Native.isPackage name then
    if spread then
      emitName .load name
      emitOp .explode
  else
    emitPackage rules path name
    if spread then emitOp .explode else bindPackage name

/-- An import of one package or of several between parentheses. -/
def importStatement (rules : Nested) : CompileM Unit := group [";", ","] (importSpec rules)

/-! ## Compiling a package -/

/-- Push names with their values. -/
def emitExports : List String → CompileM Unit
  | [] => pure ()
  | name :: rest => do
    emitValue (.string name)
    emitName .load name
    emitExports rest

/-- The end of a package: its exports as a struct. -/
def returnExports (name : String) : CompileM Unit := do
  let exports := (← get).exports.eraseDups
  emitExports exports
  emit .struct (.tuple [.int (Int64.ofNat exports.length), .name name])
  emitInt .leave 1

/-- Take the draft's code as a closed unit. -/
def finish : CompileM Code := do
  let c ← get
  modifyDraft fun d => { d with code := { name := c.moduleName } }
  pure { c.draft.code with package := c.package }.close

/-- Compile the statements of a package and what follows them; the result is its name and its
code. -/
def packageCode (name : String) (statements : CompileM Unit) : CompileM (String × Code) := do
  statements
  let package := (← get).package.getD name
  modify fun c => { c with package := some package }
  returnExports package
  pure (package, ← finish)

/-- Compile a package with a compiler of its own, which shares the finished units and the files.
The function it becomes sees the names of its caller's scope. -/
def compilePackage (statements : String → CompileM Unit) (name source : String)
    (directory : Option String) : CompileM CodeRef := fun c =>
  let inner := Compiler.new name
    { strictness := c.strictness, normalize := c.normalize, importPath := c.importPath }
  let inner := { inner with baseDirectory := directory, codes := c.codes, files := c.files }
  let (result, after) := packageCode name (statements source) inner
  let c := { c with codes := after.codes }
  match result with
  | .error f => (.error f, c)
  | .ok (package, code) =>
    let declaration : Declaration := { name := package, scope := .caller }
    addCode { code with name := "package " ++ package, declaration := some declaration } c

end StackScript.CompileM
