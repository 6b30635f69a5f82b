import StackScript.CommandLine.Options
import StackScript.Compiler.Import
import StackScript.Token.Scan

/-!
# Sources of a program

Which files a call of the tool can need, so that they can be fetched before anything is compiled:
the script and, for each source, the files its imports can mean.

Main statements: `script?_interact` (without a script there is nothing to fetch).
-/
namespace StackScript.CommandLine

/-- The script that is to be run. -/
def Options.script? (o : Options) : Option String :=
  match o.command with
  | .script file _ => some file
  | _ => none

/-- The words that can be paths in what follows the word `import`. -/
def pathsAfter (rest : List Token) : List String :=
  let spec : List Token := match rest with
    | t :: more => if t.spelling = "(" then more.takeWhile (·.spelling != ")") else rest.take 2
    | [] => []
  (spec.filter fun t => t.tag == .string || t.tag == .identifier).map (·.spelling)

/-- The words that can be paths of imports in tokens. -/
def importPaths : List Token → List String
  | [] => []
  | t :: rest =>
    if t.tag == .reserved && t.spelling == "import" then pathsAfter rest ++ importPaths rest
    else importPaths rest

/-- The files that the imports of a source can mean. -/
def importedFiles (directory : Option String) (source : String) : List String :=
  (importPaths (Token.scan source).tokens).map fun path =>
    FilePath.join (directory.getD "") (CompileM.importFile path)

theorem script?_interact : ({} : Options).script? = none := rfl

end StackScript.CommandLine
