import EntityMapping.Expression.Basic
/-!
# The document value an expression stands for

A single-valued expression stands for its value, a general one for a document
with one entry from its operation to its payload; expressions in the payload
stand for their own values and settings that were not made are left out. A
name that is given twice keeps its first place and its last expression.
-/

namespace EntityMapping.Expression

/-- One named value, or none when it is absent. -/
def optionalEntry (name : String) : Option Bson → List (String × Bson)
  | none => []
  | some content => [(name, content)]

mutual

/-- The value an expression stands for. -/
def meaning : Expression → Bson
  | .field path => .string path
  | .value content => content
  | .document entries => .document (Keyed.ofPairs (meaningEntries entries))
  | .array items => .array (meanings items)
  | .operator operation arguments => .document [(operation, meaningArguments arguments)]
  | .push source => .document [("$push", meaningSource source)]
  | .zip inputs useLongestLength defaults =>
    .document [("$zip", .document
      (("inputs", .array (meanings inputs)) ::
        (optionalEntry "useLongestLength" (useLongestLength.map .boolean) ++
          optionalEntry "defaults" (meaningOptional defaults))))]
  | .calculus operation input unit =>
    .document [(operation, .document
      (("input", meaning input) ::
        optionalEntry "unit" (unit.map fun unit => .string unit.name)))]
  | .function body arguments language =>
    .document [("$function", .document
      [("body", .string body), ("args", .array (meanings arguments)),
        ("lang", .string language)])]

/-- The values of a list of expressions. -/
def meanings : List Expression → List Bson
  | [] => []
  | item :: rest => meaning item :: meanings rest

/-- The values of named expressions, under the same names. -/
def meaningEntries : List (String × Expression) → List (String × Bson)
  | [] => []
  | (name, item) :: rest => (name, meaning item) :: meaningEntries rest

/-- The value of an expression that may be absent. -/
def meaningOptional : Option Expression → Option Bson
  | none => none
  | some item => some (meaning item)

/-- The payload of an operator. -/
def meaningArguments : Arguments Expression → Bson
  | .single argument => meaning argument
  | .list arguments => .array (meanings arguments)
  | .named arguments => .document (Keyed.ofPairs (meaningEntries arguments))

/-- The payload of an accumulator. -/
def meaningSource : Accumulation Expression → Bson
  | .empty => .document []
  | .fields entries => .document (Keyed.ofPairs (meaningEntries entries))
  | .single item => meaning item

end

end EntityMapping.Expression
