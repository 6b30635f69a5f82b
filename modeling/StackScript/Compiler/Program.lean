import StackScript.Compiler.Statement

/-!
# Compiling a source

The constructs that contain others of their own sort are tied together here, level by level: each
level is read by the rules of the level below, and packages are compiled by the levels of imports
below. A construct nests no deeper than its source has tokens. Packages whose imports do not come
back to them nest no deeper than there are files; those that import themselves do so until their
path is too long to be opened, or without end.

Main statements: `finish_isSealed` (a finished unit takes no more instructions).
-/
namespace StackScript.CompileM

/-- The constructs of a source, nested at most so deep. -/
def rulesTo (package : String → String → Option String → CompileM CodeRef) :
    (depth : Nat) → Nested
  | 0 =>
    let beyond : CompileM Unit := throw (.of .limitReached)
    { expression := beyond, unary := beyond, statement := beyond, ifStatement := beyond
      package := package }
  | depth + 1 =>
    let rules := rulesTo package depth
    { expression := expressionWith rules
      unary := unaryWith rules
      statement := statementWith rules
      ifStatement := ifWith rules (simpleStatement rules)
      package := package }

/-- Read a source anew. The line that was noted last is still known. -/
def openSource (source : String) : CompileM Unit := do
  let c ← get
  match Token.Cursor.ofSource source with
  | .error f => throw (f.inModule c.moduleName)
  | .ok cursor =>
    set { c with
      cursor := cursor
      draft := { c.draft with code := { name := c.moduleName } } }

/-- Read a source of statements anew. -/
def openStatements (source : String) : CompileM Unit := do
  openSource source
  modifyDraft fun d => { d with lastLine := 0 }

/-- The rules that are deep enough for the source that was opened. A statement and the
expression in it are two levels on one token. -/
def openedRules (package : String → String → Option String → CompileM CodeRef) :
    CompileM Nested := do
  pure (rulesTo package (2 * (← turnBound) + 2))

/-- Compile the statements of a source. -/
def statementsWith (package : String → String → Option String → CompileM CodeRef)
    (source : String) : CompileM Unit := do
  openStatements source
  let rules ← openedRules package
  repeatWhile do
    if ← atEnd then pure false
    else
      rules.statement
      pure true

/-- Compile a package whose imports nest at most so deep. -/
def packageTo : (depth : Nat) → (name source : String) → (directory : Option String) →
    CompileM CodeRef
  | 0, _, _, _ => throw (.of .limitReached)
  | depth + 1, name, source, directory =>
    compilePackage (statementsWith (packageTo depth)) name source directory

/-- How deep imports may nest: through every file once for each length of its path. -/
def importDepth : CompileM Nat := do pure (((← get).files.texts.length + 1) * pathLimit)

/-- Compile a sequence of statements. What earlier sources declared is still known. -/
def compile (source : String) : CompileM Code := do
  statementsWith (packageTo (← importDepth)) source
  finish

/-- Compile one expression, which leaves its value on the stack. -/
def compileExpression (source : String) : CompileM Code := do
  openSource source
  let rules ← openedRules (packageTo (← importDepth))
  let c := (← get).cursor
  emitInt .atLine c.current.line
  rules.expression
  if !(← atEnd) then fail .unexpectedToken
  finish

theorem finish_code (c : Compiler) :
    (finish.run c).1 = .ok ({ c.draft.code with package := c.package } : Code).close := rfl

theorem finish_isSealed (c c' : Compiler) (code : Code) (h : finish.run c = (.ok code, c')) :
    code.isSealed = true := by
  have same := (congrArg Prod.fst h).symm.trans (finish_code c)
  rw [Except.ok.inj same]
  exact Code.isSealed_close _

end StackScript.CompileM
