import EntityMapping.Expression.Basic
import EntityMapping.Stream.Writer
/-!
# Writing expressions

Expressions are written event by event at the place a writer stands.
-/

namespace EntityMapping

namespace Writer

/-- Write a name and a value when the value is there. -/
def writeOptional (name : String) : Option Bson → WriteM Unit
  | none => pure ()
  | some value => writeField name value

end Writer

namespace Expression

open Writer

mutual

/-- Write an expression as the next value. -/
def write : Expression → WriteM Unit
  | .field path => writeValue (.string path)
  | .value content => writeValue content
  | .document entries => inDocument (writeEntries entries)
  | .array items => inArray (writeAll items)
  | .operator operation arguments => inDocument do
    writeName operation
    writeArguments arguments
  | .push source => inDocument do
    writeName "$push"
    writeSource source
  | .zip inputs useLongestLength defaults => inDocument do
    writeName "$zip"
    inDocument do
      inNamedArray "inputs" (writeAll inputs)
      writeOptional "useLongestLength" (useLongestLength.map .boolean)
      writeNamed "defaults" defaults
  | .calculus operation input unit => inDocument do
    writeName operation
    inDocument do
      writeName "input"
      write input
      writeOptional "unit" (unit.map fun unit => .string unit.name)
  | .function body arguments language => inDocument do
    writeName "$function"
    inDocument do
      writeField "body" (.string body)
      inNamedArray "args" (writeAll arguments)
      writeField "lang" (.string language)

/-- Write expressions one after the other. -/
def writeAll : List Expression → WriteM Unit
  | [] => pure ()
  | item :: rest => do
    write item
    writeAll rest

/-- Write named expressions into the open document. -/
def writeEntries : List (String × Expression) → WriteM Unit
  | [] => pure ()
  | (name, item) :: rest => do
    writeName name
    write item
    writeEntries rest

/-- Write a name and an expression when the expression is there. -/
def writeNamed (name : String) : Option Expression → WriteM Unit
  | none => pure ()
  | some item => do
    writeName name
    write item

/-- Write the payload of an operator. -/
def writeArguments : Arguments Expression → WriteM Unit
  | .single argument => write argument
  | .list arguments => inArray (writeAll arguments)
  | .named arguments => inDocument (writeEntries arguments)

/-- Write the source of an accumulated value; an empty one is an empty document. -/
def writeSource : Accumulation Expression → WriteM Unit
  | .empty => inDocument (pure ())
  | .fields entries => inDocument (writeEntries entries)
  | .single item => write item

end

/-- Write a name and a list of expressions. -/
def writeNamedAll (name : String) (items : List Expression) : WriteM Unit :=
  inNamedArray name (writeAll items)

/-- The value that an expression is written as. -/
def compile (expression : Expression) : Except AggregationError Bson :=
  (Writer.valueOf expression.write).mapError .document

end Expression

end EntityMapping
