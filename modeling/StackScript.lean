import StackScript.Token.Scan
import StackScript.Compiler.Program
import StackScript.Machine
import StackScript.Template.Render
import StackScript.Pattern.Read
import StackScript.Profile.Read
import StackScript.CommandLine
import StackScript.Main
import StackScript.Proofs.Calls.Frames
import StackScript.Proofs.Calls.Return
import StackScript.Proofs.Calls.Runs
import StackScript.Proofs.Expressions.Evaluator
import StackScript.Proofs.Expressions.Computing
import StackScript.Proofs.Expressions.Code
import StackScript.Proofs.Compiling.Emission
import StackScript.Proofs.Expressions.Parsing
import StackScript.Proofs.Expressions.Operands
import StackScript.Proofs.Compiling.Sealing
import StackScript.Proofs.Expressions.Moving
import StackScript.Proofs.Compiling.Sessions
import StackScript.Proofs.Expressions.Compiled
import StackScript.Proofs.Statements.Syntax
import StackScript.Proofs.Statements.Interpreter
import StackScript.Proofs.Statements.Running
import StackScript.Proofs.Statements.Simulation
import StackScript.Proofs.Statements.Writing
import StackScript.Proofs.Statements.Heads
import StackScript.Proofs.Statements.Reading
import StackScript.Proofs.Statements.Blocks
import StackScript.Proofs.Statements.Loops
import StackScript.Proofs.Statements.Compiling
import StackScript.Proofs.Statements.Compiled
import StackScript.Proofs.Settling.Units
import StackScript.Proofs.Addresses.Blind
import StackScript.Proofs.Addresses.Builtins
import StackScript.Proofs.Addresses.Steps
import StackScript.Proofs.Addresses.Guides
import StackScript.Proofs.Addresses.Trimmed
import StackScript.Proofs.Sparing
import StackScript.Proofs.Constants.Builtins
import StackScript.Proofs.Constants.Runs
import StackScript.Proofs.Rules
import StackScript.Proofs.Goroutines
import StackScript.Proofs.Channels
import StackScript.Proofs.Scopes
import StackScript.Proofs.Copies.Storing
import StackScript.Proofs.Debugging.Sessions
import StackScript.Proofs.Lineages.Runs
import StackScript.Proofs.Assignments.Destinations
import StackScript.Proofs.Assignments.Code
import StackScript.Proofs.Assignments.Compound
import StackScript.Proofs.Assignments.Several
import StackScript.Proofs.Parameters.Passing
import StackScript.Proofs.Editing
import StackScript.Proofs.Copies.Projecting
import StackScript.Proofs.WholeNumbers
import StackScript.Proofs.Promotion
import StackScript.Proofs.Scanning.Lexemes
import StackScript.Proofs.Scanning.Quoted
import StackScript.Proofs.Scanning.Brackets
import StackScript.Proofs.Sorting.Comparators
import StackScript.Proofs.Sorting.Builtins
import StackScript.Proofs.Templates.Blocks
import StackScript.Proofs.Templates.Writing
import StackScript.Proofs.Types.Spelling
import StackScript.Proofs.Types.Reading
import StackScript.Proofs.Documents
import StackScript.Proofs.Statements.Lines
import StackScript.Proofs.Profiles.Keeping
import StackScript.Proofs.Balance.Programs
